import ScriptMin.Grammar.Expression
import ScriptMin.Proofs.InPlace.Function

/-!
# Expressions in place

Operands and operators with one stack of frames. Only functions and classes change it, so an
expression leaves every frame as it was. The parameters of an arrow function are read in a frame
that is dropped when no arrow follows.
-/

namespace ScriptMin.Grammar.InPlace

open Parse

section

variable {rules : Rules} {rules' : Grammar.Rules} (hr : rules.Track rules') (f : Frame)

/-! ## Arrow functions -/

/-- The body of an arrow function: statements in braces or an expression. -/
def arrowBody (rules : Rules) (e : Extent) : InPlace Reading := do
  if ← atPunctuator .openBrace then return ⟨← functionBody rules, false⟩
  else rules.expression e.assignment

include hr in
theorem follows_arrowBody (hf : f.directLabels = 0) (e : Extent) :
    (arrowBody rules e).Follows (Grammar.arrowBody rules' f e) f fun a b g =>
      a = b.1 ∧ g = { f with strict := b.2 } := by
  refine .step _ fun _ => .ite (fun _ => ?_) fun _ => ?_
  · refine (follows_functionBody hr f hf).bind ?_
    rintro body ⟨_, strict⟩ _ ⟨rfl, rfl⟩
    exact .pure ⟨rfl, rfl⟩
  · exact (hr.expression f _).bind_right fun _ => .pure ⟨rfl, rfl⟩

/-- An arrow function from its body on, in whose frame the parameters are checked first. -/
def arrowFunction (rules : Rules) (e : Extent) (isAsync : Bool) (start : Source.Span)
    (parameters : Node) (checkNames : Parse Unit) : InPlace Operand := do
  let outer ← frame
  let (body, inner) ← withFrame (outer.arrow isAsync) do
    checkNames
    arrowBody rules e
  check (checkParameters outer.strict inner.strict true parameters)
  return ⟨⟨start.cover body.node.span, .arrowFunction isAsync parameters body.node⟩, true,
    body.inserted⟩

include hr in
theorem tracks_arrowFunction (e : Extent) (isAsync : Bool) (start : Source.Span)
    (parameters : Node) (checkNames : Parse Unit) :
    (arrowFunction rules e isAsync start parameters checkNames).Tracks
      (do
        checkNames
        Grammar.arrowFunction rules' f e isAsync start parameters) f := by
  have hbody : (do
        checkNames
        Grammar.arrowFunction rules' f e isAsync start parameters) = ((do
        checkNames
        Grammar.arrowBody rules' (f.arrow isAsync) e) >>= fun read => do
      check (checkParameters f.strict read.2 true parameters)
      return ⟨⟨start.cover read.1.node.span, .arrowFunction isAsync parameters read.1.node⟩, true,
        read.1.inserted⟩) := by
    simp only [Grammar.arrowFunction, bind_assoc]
  rw [hbody]
  refine .frame ((Follows.withFrame (.step _ fun _ => follows_arrowBody hr _ rfl e)).bind ?_)
  rintro ⟨_, inner⟩ ⟨body, strict⟩ _ ⟨⟨hread, hinner⟩, rfl⟩
  dsimp only at hread hinner
  subst hread hinner
  exact .step _ fun _ => .same _

/-- An arrow function from the arrow on, with one parameter without parentheses. -/
def singleParameterArrow (rules : Rules) (e : Extent) (isAsync : Bool) (start : Source.Span)
    (name : Token) : InPlace Operand := do
  checkArrow e (← arrow)
  let parameter := ⟨name.span, .parameter false (bindingNode name) none⟩
  arrowFunction rules e isAsync start ⟨name.span, .signature [parameter]⟩
    (check (checkBinding ((← frame).arrow isAsync) .parameter (.ofToken name)))

include hr in
theorem tracks_singleParameterArrow (e : Extent) (isAsync : Bool) (start : Source.Span)
    (name : Token) :
    (singleParameterArrow rules e isAsync start name).Tracks
      (Grammar.singleParameterArrow rules' f e isAsync start name) f :=
  .step _ fun _ => .step _ fun _ => .frame (tracks_arrowFunction hr f e isAsync start _ _)

/-- An arrow function from its parenthesis on, if it is one. The parameters are read in a frame of
their own, and taken back if no arrow follows. -/
def parenthesisedArrow? (rules : Rules) (e : Extent) (isAsync : Bool)
    (start : Option Source.Span) : InPlace (Option Operand) := do
  let outer ← frame
  let head ← attempt (· == .lineTerminatorBeforeArrow) <|
    withFrame { outer.arrow isAsync with generator := outer.generator } do
      let parameters ← signature rules
      return (parameters, ← arrow)
  match head with
  | none => return none
  | some ((parameters, arrow), _) =>
    checkArrow e arrow
    return some (← arrowFunction rules e isAsync (start.getD parameters.span) parameters (pure ()))

include hr in
theorem tracks_parenthesisedArrow? (e : Extent) (isAsync : Bool) (start : Option Source.Span) :
    (parenthesisedArrow? rules e isAsync start).Tracks
      (Grammar.parenthesisedArrow? rules' f e isAsync start) f := by
  refine .frame ((Follows.attempt_withFrame
    ((tracks_signature hr _).bind fun _ => .step _ fun _ => .same _) _).bind ?_)
  rintro _ _ _ ⟨hhead, rfl⟩
  cases hhead with
  | none => exact .same _
  | @some a b hab =>
    obtain ⟨⟨parameters, arrow⟩, _⟩ := a
    obtain ⟨rfl, _⟩ := hab
    exact .step _ fun _ => (tracks_arrowFunction hr _ e isAsync _ _ _).bind fun _ => .same _

/-! ## Arguments and literals -/

/-- The arguments of a call up to the closing parenthesis, which is left. -/
def arguments (rules : Rules) : InPlace (List Node) := do
  let reversed ← iterate
    (fun (read : List Node) => do
      if ← atPunctuator .closeParenthesis then return Round.done read
      else
        let spread ← takeIf (· == .punctuator .ellipsis)
        let value ← rules.single [.comma, .closeParenthesis]
        let span := (spread.map fun t => t.span.cover value.span).getD value.span
        let read := ⟨span, .argument spread.isSome value⟩ :: read
        if ← tookPunctuator .comma then return .again read else return .done read)
    rules.bound []
  return reversed.reverse

include hr in
theorem tracks_arguments : (arguments rules).Tracks (Grammar.arguments rules' f) f := by
  unfold arguments
  rw [hr.bound]
  refine (Tracks.iterate (fun read => .step _ fun _ => ?_) _ []).bind fun _ => .same _
  refine .ite (fun _ => .same _) fun _ => .step _ fun spread => ?_
  exact (hr.single f _).bind fun _ => .step _ fun _ => .ite (fun _ => .same _) fun _ => .same _

/-- An array literal after its opening bracket. -/
def arrayLiteral (rules : Rules) (first : Token) : InPlace Node := do
  let reversed ← iterate
    (fun (read : List (ArrayElement Node)) => do
      if ← tookPunctuator .comma then return Round.again (.hole :: read)
      else if ← atPunctuator .closeBracket then return .done read
      else
        let isSpread ← tookPunctuator .ellipsis
        let value ← rules.single [.comma, .closeBracket]
        let read := (if isSpread then .spread value else .item value) :: read
        if ← atPunctuator .closeBracket then return .done read
        else
          let _ ← expectPunctuator .comma
          return .again read)
    rules.bound []
  let close ← expectPunctuator .closeBracket
  return ⟨first.span.cover close.span, .arrayLiteral reversed.reverse⟩

include hr in
theorem tracks_arrayLiteral (first : Token) :
    (arrayLiteral rules first).Tracks (Grammar.arrayLiteral rules' f first) f := by
  unfold arrayLiteral
  rw [hr.bound]
  refine (Tracks.iterate (fun read => .step _ fun _ => ?_) _ []).bind fun _ => .step _ fun _ =>
    .same _
  refine .ite (fun _ => .same _) fun _ => .step _ fun _ => .ite (fun _ => .same _) fun _ => ?_
  refine .step _ fun isSpread => (hr.single f _).bind fun value => .step _ fun _ => ?_
  exact .ite (fun _ => .same _) fun _ => .step _ fun _ => .same _

/-- An object literal after its opening brace. -/
def objectLiteral (rules : Rules) (first : Token) : InPlace Node := do
  let reversed ← iterate
    (fun (read : List Node) => do
      if ← atPunctuator .closeBrace then return Round.done read
      else
        let place ← mark
        let content ←
          if ← tookPunctuator .ellipsis then
            pure (.spread (← rules.single [.comma, .closeBrace]))
          else
            let (key, value) ← member rules .object
            pure (objectMemberContent key value)
        let read := ⟨← spanFrom place, .objectMember content⟩ :: read
        if ← atPunctuator .closeBrace then return .done read
        else
          let _ ← expectPunctuator .comma
          return .again read)
    rules.bound []
  let close ← expectPunctuator .closeBrace
  return ⟨first.span.cover close.span, .objectLiteral reversed.reverse⟩

include hr in
theorem tracks_objectLiteral (first : Token) :
    (objectLiteral rules first).Tracks (Grammar.objectLiteral rules' f first) f := by
  unfold objectLiteral
  rw [hr.bound]
  refine (Tracks.iterate (fun read => .step _ fun _ => ?_) _ []).bind fun _ => .step _ fun _ =>
    .same _
  refine .ite (fun _ => .same _) fun _ => .step _ fun place => .step _ fun _ => ?_
  extract_lets rest rest'
  have hrest (content : ObjectMember Node) : (rest content).Tracks (rest' content) f :=
    .step _ fun _ => .step _ fun _ => .ite (fun _ => .same _) fun _ => .step _ fun _ => .same _
  refine .ite (fun _ => ?_) fun _ => ?_
  · exact (hr.single f _).bind fun value => hrest (.spread value)
  · exact (tracks_member hr f _).bind fun _ => hrest _

/-- The parts of a template after its first piece, and the span of the whole. -/
def templateParts (rules : Rules) (head : Token) :
    InPlace (List (TemplatePart Node) × Source.Span) := do
  let (reversed, last) ← iterate
    (fun ((read, piece) : List (TemplatePart Node) × Token) => do
      if piece.kind == .template true then return Round.done (read, piece)
      else
        let value ← rules.whole .closeBrace
        let _ ← expectPunctuator .closeBrace
        let piece ← templateTail
        return .again (.text (templateText piece false) :: .substitution value :: read, piece))
    rules.bound ([.text (templateText head true)], head)
  return (reversed.reverse, head.span.cover last.span)

include hr in
theorem tracks_templateParts (head : Token) :
    (templateParts rules head).Tracks (Grammar.templateParts rules' f head) f := by
  unfold templateParts
  rw [hr.bound]
  refine (Tracks.iterate (fun read => .ite (fun _ => .same _) fun _ => ?_) _ _).bind fun _ =>
    .same _
  exact (hr.whole f _).bind fun _ => .step _ fun _ => .step _ fun _ => .same _

def simpleOperand (t : Token) : InPlace Node := do
  Grammar.simpleOperand (← frame) t

/-! ## Accesses, `new` and `import` -/

/-- The expression of an index after its opening bracket, and the closing bracket. -/
def subscript (rules : Rules) : InPlace (Node × Token) := do
  let value ← rules.whole .closeBracket
  return (value, ← expectPunctuator .closeBracket)

include hr in
theorem tracks_subscript : (subscript rules).Tracks (Grammar.subscript rules' f) f :=
  (hr.whole f _).bind fun _ => .step _ fun _ => .same _

/-- An `import` that is an expression, after the word. -/
def importExpression (rules : Rules) (first : Token) : InPlace Node := do
  if ← tookPunctuator .dot then
    let name ← metaName true "meta"
    return ⟨first.span.cover name.span, .importMeta⟩
  else
    let _ ← expectPunctuator .openParenthesis
    let specifier ← rules.single [.closeParenthesis]
    let close ← expectPunctuator .closeParenthesis
    return ⟨first.span.cover close.span, .importCall specifier⟩

include hr in
theorem tracks_importExpression (first : Token) :
    (importExpression rules first).Tracks (Grammar.importExpression rules' f first) f := by
  refine .step _ fun _ => .ite (fun _ => .step _ fun _ => .same _) fun _ => .step _ fun _ => ?_
  exact (hr.single f _).bind fun _ => .step _ fun _ => .same _

/-- The accesses and templates after the operand of a `new`. -/
def constructorAccesses (rules : Rules) (callee : Node) : InPlace Node :=
  iterate
    (fun (callee : Node) => do
      let t ← peek
      match t.kind with
      | .punctuator .dot =>
        skip
        let name ← memberName
        return Round.again
          ⟨callee.span.cover name.span, .member false false callee name.text⟩
      | .punctuator .openBracket =>
        skip
        let (value, close) ← subscript rules
        return .again ⟨callee.span.cover close.span, .index false false callee value⟩
      | .template _ =>
        skip
        let (parts, span) ← templateParts rules t
        return .again ⟨callee.span.cover span, .taggedTemplate callee parts⟩
      | _ => return .done callee)
    rules.bound callee

include hr in
theorem tracks_constructorAccesses (callee : Node) :
    (constructorAccesses rules callee).Tracks (Grammar.constructorAccesses rules' f callee) f := by
  unfold constructorAccesses
  rw [hr.bound]
  refine Tracks.iterate (fun callee => .step _ fun t => ?_) _ _
  generalize t.kind = kind
  split
  case h_1 => exact .step _ fun _ => .step _ fun _ => .same _
  case h_2 => exact .step _ fun _ => (tracks_subscript hr f).bind fun _ => .same _
  case h_3 => exact .step _ fun _ => (tracks_templateParts hr f t).bind fun _ => .same _
  case h_4 => (try split) <;> first | contradiction | exact .same _ | grind

/-- A `yield` after the word. On a new line it has no operand. -/
def yieldOperand (rules : Rules) (e : Extent) (t : Token) : InPlace Operand := do
  if assignmentPrecedence < e.minimum then unexpected t
  else if (← frame).inParameters then refuse (t.error .yieldInParameters)
  else
    let after ← peekIn .regex
    let delegates := after.kind == .punctuator .asterisk
    if after.afterNewline || !(delegates || yieldOperand.startsOperand after.kind) then
      return ⟨⟨t.span, .yieldExpression false none⟩, true, false⟩
    else
      if delegates then skip
      let operand ← rules.expression e.assignment
      return ⟨⟨t.span.cover operand.node.span, .yieldExpression delegates (some operand.node)⟩,
        true, operand.inserted⟩

include hr in
theorem tracks_yieldOperand (e : Extent) (t : Token) :
    (yieldOperand rules e t).Tracks (Grammar.yieldOperand rules' f e t) f := by
  refine .ite (fun _ => .lift _) fun _ => .frame (.ite (fun _ => .lift _) fun _ => ?_)
  refine .step _ fun after => ?_
  extract_lets delegates operand operand'
  have hoperand (u : Unit) : (operand u).Tracks (operand' u) f :=
    (hr.expression f _).bind fun _ => .same _
  refine .ite (fun _ => .same _) fun _ => ?_
  exact .ite (fun _ => .step _ hoperand) fun _ => hoperand ()

/-! ## All operands -/

/-- An operator before its operand. -/
def unaryOperand (rules : Rules) (e : Extent) (t : Token) (operator : UnaryOperator) :
    InPlace Operand := do
  let operand ← rules.expression (e.atLeast unaryPrecedence)
  if operator.isUpdate then check (checkUpdate operand.node)
  return .ofReading operand ⟨t.span.cover operand.node.span, .unary operator operand.node⟩

include hr in
theorem tracks_unaryOperand (e : Extent) (t : Token) (operator : UnaryOperator) :
    (unaryOperand rules e t operator).Tracks (Grammar.unaryOperand rules' f e t operator) f := by
  refine (hr.expression f _).bind fun operand => ?_
  exact .ite (fun _ => .step _ fun _ => .same _) fun _ => .same _

/-- What starts with a parenthesis. -/
def parenthesisedOperand (rules : Rules) (e : Extent) : InPlace Operand := do
  match ← parenthesisedArrow? rules e false none with
  | some operand => return operand
  | none =>
    let group := markParenthesised (← rules.parenthesised)
    let after ← peek
    if after.kind == .punctuator .arrow then
      if group.any fun n => n.shape matches .yieldExpression .. then
        refuse ⟨.yieldInParameters, group.span.start⟩
      else unexpected after
    else return .plain group

include hr in
theorem tracks_parenthesisedOperand (e : Extent) :
    (parenthesisedOperand rules e).Tracks (Grammar.parenthesisedOperand rules' f e) f := by
  refine (tracks_parenthesisedArrow? hr f e false none).bind fun arrow => ?_
  cases arrow with
  | some operand => exact .same _
  | none =>
    refine (hr.parenthesised f).bind fun group => .step _ fun after => ?_
    exact .ite (fun _ => .ite (fun _ => .lift _) fun _ => .lift _) fun _ => .same _

/-- What starts with the word `async`. -/
def asyncOperand (rules : Rules) (e : Extent) (place : Cursor) (t : Token) :
    InPlace Operand := do
  let name := Operand.plain ⟨t.span, .identifier t.text⟩
  let after ← peek
  if after.afterNewline then return name
  else
    match after.kind with
    | .word .functionWord =>
      rewind place
      return .plain (← functionExpression rules)
    | .punctuator .openParenthesis =>
      return (← parenthesisedArrow? rules e true (some t.span)).getD name
    | kind =>
      if kind.isBindingName then singleParameterArrow rules e true t.span (← next)
      else return name

include hr in
theorem tracks_asyncOperand (e : Extent) (place : Cursor) (t : Token) :
    (asyncOperand rules e place t).Tracks (Grammar.asyncOperand rules' f e place t) f := by
  refine .step _ fun after => .ite (fun _ => .same _) fun _ => ?_
  generalize after.kind = kind
  split
  case h_1 =>
    exact .step _ fun _ => (tracks_functionExpression hr f).bind fun _ => .same _
  case h_2 => exact (tracks_parenthesisedArrow? hr f e true _).bind fun _ => .same _
  case h_3 =>
    refine Follows.of_eq (.ite
      (fun _ => .step _ fun _ => tracks_singleParameterArrow hr f e true _ _) fun _ => .same _) ?_
    first
    | rfl
    | split <;> first | contradiction | rfl

/-- A name: a variable or the parameter of an arrow function. -/
def nameOperand (rules : Rules) (e : Extent) (t : Token) : InPlace Operand := do
  if ← atPunctuator .arrow then singleParameterArrow rules e false t.span t
  else
    check (checkReference (← frame) (.ofToken t))
    return .plain ⟨t.span, .identifier t.text⟩

include hr in
theorem tracks_nameOperand (e : Extent) (t : Token) :
    (nameOperand rules e t).Tracks (Grammar.nameOperand rules' f e t) f :=
  .step _ fun _ => .ite (fun _ => tracks_singleParameterArrow hr f e false t.span t) fun _ =>
    .frame (.step _ fun _ => .same _)

/-- An operand with the operators before it. -/
def operand (rules : Rules) (e : Extent) : InPlace Operand := do
  let place ← mark
  let t ← nextIn .regex
  match t.kind.unaryOperator? with
  | some operator => unaryOperand rules e t operator
  | none =>
    match t.kind with
    | .word .newWord => return .plain (← rules.construct t)
    | .word .asyncWord => asyncOperand rules e place t
    | .word .functionWord =>
      rewind place
      return .plain (← functionExpression rules)
    | .word .classWord =>
      rewind place
      return .plain (← classExpression rules)
    | .word .importWord => return .plain (← importExpression rules t)
    | .punctuator .openBracket => return .plain (← arrayLiteral rules t)
    | .punctuator .openBrace => return .plain (← objectLiteral rules t)
    | .punctuator .openParenthesis =>
      rewind place
      parenthesisedOperand rules e
    | .template _ =>
      let (parts, span) ← templateParts rules t
      return .plain ⟨span, .templateLiteral parts⟩
    | kind =>
      let f ← frame
      if kind == .word .awaitWord && f.isAsync then unaryOperand rules e t .await
      else if kind == .word .yieldWord && f.generator then yieldOperand rules e t
      else if kind.isBindingName then nameOperand rules e t
      else return .plain (← simpleOperand t)

include hr in
theorem tracks_operand (e : Extent) : (operand rules e).Tracks (Grammar.operand rules' f e) f := by
  refine .step _ fun place => .step _ fun t => ?_
  have hplain {p : InPlace Node} {q : Parse Node} (h : p.Tracks q f) :
      Tracks (do return .plain (← p)) (do return Operand.plain (← q)) f :=
    h.bind fun _ => .same _
  cases t.kind.unaryOperator? with
  | some operator => exact tracks_unaryOperand hr f e t operator
  | none =>
    generalize t.kind = kind
    dsimp only
    split
    case h_1 => exact hplain (hr.construct f t)
    case h_2 => exact tracks_asyncOperand hr f e place t
    case h_3 => exact .step _ fun _ => hplain (tracks_functionExpression hr f)
    case h_4 => exact .step _ fun _ => hplain (tracks_classExpression hr f)
    case h_5 => exact hplain (tracks_importExpression hr f t)
    case h_6 => exact hplain (tracks_arrayLiteral hr f t)
    case h_7 => exact hplain (tracks_objectLiteral hr f t)
    case h_8 => exact .step _ fun _ => tracks_parenthesisedOperand hr f e
    case h_9 => exact (tracks_templateParts hr f t).bind fun _ => .same _
    case h_10 =>
      refine Follows.of_eq (.frame (.ite (fun _ => tracks_unaryOperand hr f e t _) fun _ =>
        .ite (fun _ => tracks_yieldOperand hr f e t) fun _ =>
        .ite (fun _ => tracks_nameOperand hr f e t) fun _ => hplain (.frame (.lift _)))) ?_
      first
      | rfl
      | split <;> first | contradiction | rfl | grind

/-- A `new` after the word, with the first arguments after it. -/
def construct (rules : Rules) (first : Token) : InPlace Node := do
  if ← tookPunctuator .dot then
    let name ← metaName (← frame).inFunction "target"
    return ⟨first.span.cover name.span, .newTarget⟩
  else
    let inner ←
      match ← takeIf (· == .word .newWord) with
      | some t => rules.construct t
      | none => pure (← operand rules ⟨memberPrecedence, [], false⟩).node
    let callee ← constructorAccesses rules inner
    if ← tookPunctuator .openParenthesis then
      let arguments ← arguments rules
      let close ← expectPunctuator .closeParenthesis
      return ⟨first.span.cover close.span, .construct callee arguments⟩
    else return ⟨first.span.cover callee.span, .construct callee []⟩

include hr in
theorem tracks_construct (t : Token) :
    (construct rules t).Tracks (Grammar.construct rules' f t) f := by
  refine .step _ fun _ => .ite (fun _ => .frame (.step _ fun _ => .same _)) fun _ => ?_
  extract_lets rest rest'
  have hrest (inner : Node) : (rest inner).Tracks (rest' inner) f := by
    refine (tracks_constructorAccesses hr f inner).bind fun callee => .step _ fun _ => ?_
    refine .ite (fun _ => ?_) fun _ => .same _
    exact (tracks_arguments hr f).bind fun _ => .step _ fun _ => .same _
  refine .step _ fun word => ?_
  cases word with
  | some t => exact (hr.construct f t).bind hrest
  | none => exact (tracks_operand hr f _).bind fun operand => hrest operand.node

/-! ## Operators -/

/-- What follows an operator, which was just read. -/
def rightOf (rules : Rules) (e : Extent) (p : Progress) (operator : Operator) (t : Token) :
    InPlace Progress := do
  let right := rules.expression (e.atLeast (rightMinimum operator))
  match operator with
  | .call isOptional =>
    let arguments ← arguments rules
    let close ← expectPunctuator .closeParenthesis
    return p.closed close.span (.call isOptional false p.left arguments)
  | .index isOptional =>
    let (value, close) ← subscript rules
    return p.closed close.span (.index isOptional false p.left value)
  | .member isOptional =>
    let name ← memberName
    return p.closed name.span (.member isOptional false p.left name.text)
  | .conditional =>
    let consequent ← rules.single [.colon]
    let _ ← expectPunctuator .colon
    let alternate ← rules.expression e.assignment
    return p.taking alternate (.conditional p.left consequent alternate.node)
  | .comma =>
    let right ← right
    return p.taking right (.sequence (p.left.elements ++ [right.node]))
  | .assignment op =>
    let target ← check (assignmentTarget op p.left)
    let right ← right
    return p.taking right (.assignment op target right.node)
  | .binary op =>
    let right ← right
    return p.taking right (.binary op p.left right.node)
  | _ => unexpected t

include hr in
theorem tracks_rightOf (e : Extent) (p : Progress) (operator : Operator) (t : Token) :
    (rightOf rules e p operator t).Tracks (Grammar.rightOf rules' f e p operator t) f := by
  have hright := hr.expression f (e.atLeast (rightMinimum operator))
  cases operator
  case call => exact (tracks_arguments hr f).bind fun _ => .step _ fun _ => .same _
  case index => exact (tracks_subscript hr f).bind fun _ => .same _
  case member => exact .step _ fun _ => .same _
  case conditional =>
    exact (hr.single f _).bind fun _ => .step _ fun _ => (hr.expression f _).bind fun _ => .same _
  case comma | binary => exact hright.bind fun _ => .same _
  case assignment => exact .step _ fun _ => hright.bind fun _ => .same _
  all_goals exact .lift (unexpected t)

/-- One more operator, if it belongs to the expression. -/
def operation (rules : Rules) (e : Extent) (p : Progress) : InPlace (Round Progress Reading) := do
  if p.inserted then return .done p.reading
  else
    let place ← mark
    let t ← next
    let leave (p : Progress) : InPlace (Round Progress Reading) := do
      rewind place
      return .done p.reading
    let closing (precedence : Nat) (read : InPlace Progress) :
        InPlace (Round Progress Reading) := do
      if precedence < e.minimum then leave p
      else if p.isLoose then unexpected t
      else return .again (← read)
    let update (op : PostfixOperator) : InPlace (Round Progress Reading) :=
      closing postfixPrecedence do
        check (checkUpdate p.left)
        return p.closed t.span (.postfixed op p.left)
    let ends := e.mayInsert && (t.afterNewline || t.kind == .punctuator .closeBrace ||
      t.kind == .endOfInput)
    if e.stops.contains t.kind then leave p
    else
      match t.kind, t.kind.operator?, t.afterNewline with
      | .punctuator .doublePlus, _, false => update .increment
      | .punctuator .doubleHyphen, _, false => update .decrement
      | .template _, _, _ =>
        closing memberPrecedence do
          let (parts, span) ← templateParts rules t
          return p.closed span (.taggedTemplate p.left parts)
      | _, none, _ => if ends then leave { p with inserted := true } else unexpected t
      | _, some operator, newline =>
        if operator.precedence < e.minimum then leave p
        else if p.isLoose && assignmentPrecedence < operator.precedence then
          if e.mayInsert && newline then leave { p with inserted := true } else unexpected t
        else if mixesNullish p.logical operator then
          refuse (t.error .nullishCoalescingMixedWithLogical)
        else
          return .again (← rightOf rules e { p with logical := logicalAtRoot operator } operator t)

include hr in
theorem tracks_operation (e : Extent) (p : Progress) :
    (operation rules e p).Tracks (Grammar.operation rules' f e p) f := by
  refine .ite (fun _ => .same _) fun _ => .step _ fun place => .step _ fun t => ?_
  extract_lets leave closing update ends leave' closing' update'
  have hleave (p : Progress) : (leave p).Tracks (leave' p) f := .step _ fun _ => .same _
  have hclosing (precedence : Nat) {read : InPlace Progress} {read' : Parse Progress}
      (hread : read.Tracks read' f) :
      (closing precedence read).Tracks (closing' precedence read') f := by
    refine .ite (fun _ => hleave p) fun _ => .ite (fun _ => .lift _) fun _ => ?_
    exact hread.bind fun _ => .same _
  have hupdate (op : PostfixOperator) : (update op).Tracks (update' op) f :=
    hclosing _ (.step _ fun _ => .same _)
  refine .ite (fun _ => hleave p) fun _ => ?_
  generalize t.kind.operator? = operator?
  generalize t.kind = kind
  generalize t.afterNewline = newline
  split
  case h_1 | h_2 => exact hupdate _
  case h_3 => exact hclosing _ ((tracks_templateParts hr f t).bind fun _ => .same _)
  case h_4 =>
    refine Follows.of_eq (.ite (fun _ => hleave _) fun _ => .lift _) ?_
    first
    | rfl
    | split <;> first | contradiction | rfl | grind
  case h_5 =>
    refine Follows.of_eq (.ite (fun _ => hleave p) fun _ => .ite (fun _ => .ite
      (fun _ => hleave _) fun _ => .lift _) fun _ => .ite (fun _ => .lift _) fun _ =>
      (tracks_rightOf hr f e _ _ t).bind fun _ => .same _) ?_
    first
    | rfl
    | split <;> first | contradiction | (cases ‹some _ = some _›; rfl) | grind

/-- An expression. -/
def expression (rules : Rules) (e : Extent) : InPlace Reading := do
  let first ← operand rules e
  iterate (operation rules e) rules.bound (.ofOperand first)

include hr in
theorem tracks_expression (e : Extent) :
    (expression rules e).Tracks (Grammar.expression rules' f e) f := by
  unfold expression
  rw [hr.bound]
  exact (tracks_operand hr f e).bind fun _ =>
    Tracks.iterate (fun p => tracks_operation hr f e p) _ _

end

end ScriptMin.Grammar.InPlace
