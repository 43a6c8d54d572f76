import ScriptMin.Grammar.Program

/-!
# Frames that grant more

Outside generators an expression asks little of the frame around it: whether the code is strict and
asynchronous, whether `super` is allowed, and whether there is a function for `new.target`. All else
is about statements, and those inside an expression stand in functions of their own. So what is read
in one frame is read in every frame that grants as much, and patterns that are not strict code are
read as any kind of binding.

`p.Within q` says that `q` gives what `p` gives. It says nothing of what `p` refuses. As for
`Agrees`, there is one rule for each way of making a reader.
-/

namespace ScriptMin.Grammar

open Parse

/-! ## Readers -/

namespace Parse

variable {α β σ ρ : Type}

/-- What `p` gives from a reader, `q` gives too. -/
def Within (p q : Parse α) : Prop :=
  ∀ r a r', p r = .ok (a, r') → q r = .ok (a, r')

namespace Within

variable {p p' q q' : Parse α} {k l : α → Parse β}

theorem refl (p : Parse α) : p.Within p := fun _ _ _ h => h

theorem of_eq (h : p = q) : p.Within q := h ▸ refl p

theorem bind (h : p.Within q) (hk : ∀ a, (k a).Within (l a)) : (p >>= k).Within (q >>= l) := by
  intro r b r' hb
  simp only [Bind.bind, StateT.bind, Except.bind] at hb ⊢
  split at hb
  case h_1 => cases hb
  case h_2 a hp =>
    rw [h r a.1 a.2 hp]
    exact hk a.1 a.2 b r' hb

/-- Readers that start alike. -/
theorem same (hk : ∀ a, (k a).Within (l a)) : (p >>= k).Within (p >>= l) := (refl p).bind hk

/-- Readers that go on alike. -/
theorem map (h : p.Within q) : (p >>= k).Within (q >>= k) := h.bind fun a => refl (k a)

theorem ite {c : Prop} [Decidable c] (hp : p.Within q) (hp' : p'.Within q') :
    (if c then p else p').Within (if c then q else q') := by
  split
  · exact hp
  · exact hp'

theorem refuse {error : SyntaxError} : (Parse.refuse error : Parse α).Within q := by
  rintro r a r' ⟨⟩

theorem unexpected {t : Token} : (Parse.unexpected t : Parse α).Within q := refuse

theorem iterate {round round' : σ → Parse (Round σ ρ)} (h : ∀ s, (round s).Within (round' s))
    (bound : Nat) (s : σ) :
    (Parse.iterate round bound s).Within (Parse.iterate round' bound s) := by
  induction bound generalizing s with
  | zero => exact refl _
  | succ bound ih =>
    refine (h s).bind fun x => ?_
    cases x with
    | again s => exact ih s
    | done result => exact refl _

end Within

end Parse

/-! ## Frames -/

/-- Neither frame is one of a generator, and `g` grants an expression all that `f` does. -/
structure Frame.Grants (f g : Frame) : Prop where
  noGenerator : f.generator = false
  noGenerator' : g.generator = false
  isAsync : g.isAsync = f.isAsync
  strict : g.strict = f.strict
  allowsSuper : g.allowsSuper = f.allowsSuper
  inFunction : f.inFunction → g.inFunction

namespace Frame.Grants

variable {f g : Frame} (h : f.Grants g)
include h

theorem classBody : f.classBody.Grants g.classBody :=
  ⟨h.noGenerator, h.noGenerator', h.isAsync, rfl, h.allowsSuper, h.inFunction⟩

/-- Functions have frames of their own. -/
theorem function (generator isAsync : Bool) :
    g.function generator isAsync = f.function generator isAsync := by
  rw [Frame.function, h.strict]
  rfl

theorem method (generator isAsync : Bool) :
    g.method generator isAsync = f.method generator isAsync := by
  rw [Frame.method, h.function]
  rfl

theorem arrow (isAsync : Bool) : g.arrow isAsync = f.arrow isAsync := by
  rw [Frame.arrow, h.function, h.allowsSuper]
  rfl

theorem checkNumber (t : Token) : checkNumber g t = Grammar.checkNumber f t := by
  rw [Grammar.checkNumber, h.strict]
  rfl

theorem checkReference (name : Name) : checkReference g name = Grammar.checkReference f name := by
  rw [Grammar.checkReference, h.noGenerator', h.strict, ← h.noGenerator]
  rfl

theorem checkBinding (kind : Binding) (name : Name) :
    checkBinding g kind name = Grammar.checkBinding f kind name := by
  rw [Grammar.checkBinding, h.noGenerator', h.strict, ← h.noGenerator]
  rfl

end Frame.Grants

/-! ## Constructs -/

/-- The constructs inside an expression are read in every frame that grants more. -/
structure Rules.Monotone (rules : Rules) : Prop where
  expression {f g : Frame} (h : f.Grants g) (e : Extent) :
    (rules.expression f e).Within (rules.expression g e)
  pattern {f g : Frame} (h : f.Grants g) (hsloppy : f.strict = false) (kind kind' : Binding) :
    (rules.pattern f kind).Within (rules.pattern g kind')
  construct {f g : Frame} (h : f.Grants g) (t : Token) :
    (rules.construct f t).Within (rules.construct g t)

section

variable {rules : Rules} {f g : Frame} (hr : rules.Monotone) (h : f.Grants g)

namespace Rules.Monotone

include hr h

theorem whole (stop : Punctuator) : (rules.whole f stop).Within (rules.whole g stop) :=
  .map (hr.expression h _)

theorem single (stops : List Punctuator) : (rules.single f stops).Within (rules.single g stops) :=
  .map (hr.expression h _)

theorem fallback (stop : Punctuator) : (rules.fallback f stop).Within (rules.fallback g stop) :=
  .same fun _ => .ite (.map (hr.single h _)) (.refl _)

theorem parenthesised : (rules.parenthesised f).Within (rules.parenthesised g) :=
  .same fun _ => .map (hr.whole h _)

end Rules.Monotone

/-! ### Functions, which are read in frames of their own -/

namespace Frame.Grants

include h

theorem functionParts (inner : Frame) (unique : Bool) :
    functionParts rules g inner unique = Grammar.functionParts rules f inner unique := by
  rw [Grammar.functionParts, Grammar.functionParts, h.strict]

theorem functionExpression :
    functionExpression rules g = Grammar.functionExpression rules f := by
  simp only [Grammar.functionExpression, functionFrom, h.function, h.functionParts, h.strict]

theorem arrowFunction (e : Extent) (isAsync : Bool) (start : Source.Span) (parameters : Node) :
    arrowFunction rules g e isAsync start parameters =
      Grammar.arrowFunction rules f e isAsync start parameters := by
  rw [Grammar.arrowFunction, Grammar.arrowFunction, h.arrow, h.strict]

theorem singleParameterArrow (e : Extent) (isAsync : Bool) (start : Source.Span) (name : Token) :
    singleParameterArrow rules g e isAsync start name =
      Grammar.singleParameterArrow rules f e isAsync start name := by
  simp only [Grammar.singleParameterArrow, h.arrow, h.arrowFunction]

theorem parenthesisedArrow? (e : Extent) (isAsync : Bool) (start : Option Source.Span) :
    parenthesisedArrow? rules g e isAsync start =
      Grammar.parenthesisedArrow? rules f e isAsync start := by
  simp only [Grammar.parenthesisedArrow?, h.arrow, h.arrowFunction, h.noGenerator, h.noGenerator']

theorem getter : getter rules g = Grammar.getter rules f := by
  rw [Grammar.getter, Grammar.getter, h.method]

theorem setter : setter rules g = Grammar.setter rules f := by
  simp only [Grammar.setter, h.method, h.strict]

theorem methodValue (isAsync generator : Bool) :
    Grammar.method rules g isAsync generator = Grammar.method rules f isAsync generator := by
  rw [Grammar.method, Grammar.method, h.method, h.functionParts]

end Frame.Grants

/-! ### Keys and patterns -/

/-- In sloppy code outside generators a name may be bound as anything. -/
theorem checkBinding_sloppy (hgenerator : f.generator = false) (hsloppy : f.strict = false)
    (kind kind' : Binding) (name : Name) :
    checkBinding f kind name = checkBinding f kind' name := by
  simp [checkBinding, checkYield, hgenerator, hsloppy]

section

variable (hsloppy : f.strict = false) (kind kind' : Binding)

include h hsloppy

theorem Frame.Grants.checkBinding_of_sloppy (name : Name) :
    Grammar.checkBinding g kind' name = Grammar.checkBinding f kind name :=
  (h.checkBinding kind' name).trans (checkBinding_sloppy h.noGenerator hsloppy kind' kind name)

theorem Frame.Grants.patternName : patternName g kind' = Grammar.patternName f kind := by
  simp only [Grammar.patternName, h.checkBinding_of_sloppy hsloppy kind kind']

end

include hr h

theorem within_key : (key rules f).Within (key rules g) := by
  refine .same fun _ => .ite (.map (hr.whole h _)) (.same fun _ => ?_)
  rw [h.checkNumber]
  exact .refl _

section

variable (hsloppy : f.strict = false) (kind kind' : Binding)

include hsloppy

theorem within_patternProperty (first : Token) :
    (patternProperty rules f kind first).Within (patternProperty rules g kind' first) := by
  refine (within_key hr h).bind fun key => .same fun _ => ?_
  extract_lets rest rest'
  have hrest (x : Node × Bool) : (rest x).Within (rest' x) := .map (hr.fallback h _)
  refine .ite ((hr.pattern h hsloppy kind kind').bind fun target => hrest (target, false)) ?_
  cases key with
  | computed expression => exact .same fun _ => .bind .unexpected hrest
  | direct name =>
    rw [h.checkBinding_of_sloppy hsloppy kind kind']
    exact .ite (.same fun _ => hrest (bindingNode first, true))
      (.same fun _ => .bind .unexpected hrest)

theorem within_patternProperties :
    (patternProperties rules f kind).Within (patternProperties rules g kind') := by
  refine .map (.iterate (fun _ => .same fun first => .ite (.refl _) (.same fun _ => ?_)) _ _)
  refine .ite (.of_eq ?_) ?_
  · rw [h.patternName hsloppy kind kind']
  · exact (within_patternProperty hr h hsloppy kind kind' first).bind fun _ => .refl _

theorem within_patternElements :
    (patternElements rules f kind).Within (patternElements rules g kind') := by
  refine .map (.iterate (fun _ => .same fun _ => .ite (.refl _) (.same fun _ => ?_)) _ _)
  refine .ite (.map (hr.pattern h hsloppy kind kind')) (.same fun _ => .ite (.refl _) ?_)
  exact (hr.pattern h hsloppy kind kind').bind fun _ => .map (hr.fallback h _)

theorem within_pattern : (pattern rules f kind).Within (pattern rules g kind') := by
  refine .same fun t => ?_
  split
  case h_1 => exact .same fun _ => .map (within_patternProperties hr h hsloppy kind kind')
  case h_2 => exact .same fun _ => .map (within_patternElements hr h hsloppy kind kind')
  case h_3 => exact .of_eq (h.patternName hsloppy kind kind').symm

end

/-! ### Members and classes -/

theorem within_property (host : MemberHost) (first : Token) (key : Key Node) :
    (property rules f host first key).Within (property rules g host first key) := by
  unfold property
  extract_lets shorthand extent rest rest'
  have hrest (isBare : Bool) : (rest isBare).Within (rest' isBare) := by
    refine .ite (.ite (.ite (.of_eq ?_) (.refl _)) (.refl _)) (.same fun _ => ?_)
    · rw [h.checkReference]
    · cases host with
      | object => exact .map (hr.expression h _)
      | classBody => exact .of_eq (by rw [h.method])
  cases key with
  | direct name => exact .same fun t => hrest _
  | computed expression => exact hrest false

theorem within_member (host : MemberHost) :
    (member rules f host).Within (member rules g host) := by
  refine .same fun modifier => ?_
  extract_lets rest rest'
  have hrest (u : Unit) : (rest u).Within (rest' u) := by
    refine .same fun generator => .same fun first => (within_key hr h).bind fun key => ?_
    split
    case h_1 => exact .of_eq (by rw [h.getter])
    case h_2 => exact .of_eq (by rw [h.setter])
    case h_3 => exact .of_eq (by rw [h.methodValue])
    case h_4 =>
      extract_lets valued valued'
      have hvalued (isMethod : Bool) : (valued isMethod).Within (valued' isMethod) :=
        .ite (.of_eq (by rw [h.methodValue])) (.map (within_property hr h host first key))
      exact .ite (hvalued true) (.same hvalued)
  exact .ite (.same fun _ => .ite (.same fun _ => .bind .unexpected hrest) (hrest ())) (hrest ())

theorem within_classBody : (classBody rules f).Within (classBody rules g) := by
  refine .same fun _ => .map (.iterate (fun _ => .same fun _ => .ite (.refl _) ?_) _ _)
  exact .same fun _ => .ite (.refl _) (.same fun _ => .map (within_member hr h _))

theorem within_classFrom (needsName : Bool)
    (shape : Option Node → Option Node → List (ClassMember Node) → Shape Node) :
    (classFrom rules f needsName shape).Within (classFrom rules g needsName shape) := by
  refine .same fun first => .same fun name => ?_
  extract_lets finish rest finish' rest'
  have hfinish (parent : Option Node) : (finish parent).Within (finish' parent) :=
    .map (within_classBody hr h.classBody)
  have hrest (u : Unit) : (rest u).Within (rest' u) :=
    .same fun _ => .ite ((hr.whole h.classBody _).bind fun parent => hfinish (some parent))
      (hfinish none)
  cases name with
  | some t => exact .bind (.of_eq (by rw [h.classBody.checkBinding])) hrest
  | none => exact .ite (.same fun _ => .bind .unexpected hrest) (hrest ())

/-! ### Operands -/

theorem within_arguments : (arguments rules f).Within (arguments rules g) := by
  refine .map (.iterate (fun _ => .same fun _ => .ite (.refl _) (.same fun _ => ?_)) _ _)
  exact .map (hr.single h _)

theorem within_arrayLiteral (first : Token) :
    (arrayLiteral rules f first).Within (arrayLiteral rules g first) := by
  refine .map (.iterate (fun _ => .same fun _ => .ite (.refl _) (.same fun _ => ?_)) _ _)
  exact .ite (.refl _) (.same fun _ => .map (hr.single h _))

theorem within_objectLiteral (first : Token) :
    (objectLiteral rules f first).Within (objectLiteral rules g first) := by
  refine .map (.iterate (fun _ => .same fun _ => .ite (.refl _) (.same fun place => ?_)) _ _)
  refine .same fun _ => ?_
  extract_lets rest
  exact .ite (.map (hr.single h _)) (.map (within_member hr h _))

theorem within_templateParts (head : Token) :
    (templateParts rules f head).Within (templateParts rules g head) := by
  refine .map (.iterate (fun state => ?_) _ _)
  exact .ite (.refl _) (.map (hr.whole h _))

theorem within_subscript : (subscript rules f).Within (subscript rules g) :=
  .map (hr.whole h _)

theorem within_importExpression (first : Token) :
    (importExpression rules f first).Within (importExpression rules g first) :=
  .same fun _ => .ite (.refl _) (.same fun _ => .map (hr.single h _))

theorem within_constructorAccesses (callee : Node) :
    (constructorAccesses rules f callee).Within (constructorAccesses rules g callee) := by
  refine .iterate (fun callee => .same fun t => ?_) _ _
  split
  case h_1 => exact .refl _
  case h_2 => exact .same fun _ => .map (within_subscript hr h)
  case h_3 => exact .same fun _ => .map (within_templateParts hr h t)
  case h_4 => exact .refl _

theorem within_unaryOperand (e : Extent) (t : Token) (operator : UnaryOperator) :
    (unaryOperand rules f e t operator).Within (unaryOperand rules g e t operator) :=
  .map (hr.expression h _)

theorem within_parenthesisedOperand (e : Extent) :
    (parenthesisedOperand rules f e).Within (parenthesisedOperand rules g e) := by
  refine .bind (.of_eq (h.parenthesisedArrow? e false none).symm) fun operand => ?_
  cases operand with
  | some operand => exact .refl _
  | none => exact .map (hr.parenthesised h)

omit hr in
theorem within_asyncOperand (e : Extent) (place : Cursor) (t : Token) :
    (asyncOperand rules f e place t).Within (asyncOperand rules g e place t) :=
  .of_eq (by simp only [asyncOperand, h.functionExpression, h.parenthesisedArrow?,
    h.singleParameterArrow])

omit hr in
theorem within_nameOperand (e : Extent) (t : Token) :
    (nameOperand rules f e t).Within (nameOperand rules g e t) :=
  .of_eq (by simp only [nameOperand, h.singleParameterArrow, h.checkReference])

theorem within_operand (e : Extent) : (operand rules f e).Within (operand rules g e) := by
  refine .same fun place => .same fun t => ?_
  dsimp only
  split
  case h_1 => exact within_unaryOperand hr h e t _
  case h_2 =>
    split
    case h_1 => exact .map (hr.construct h t)
    case h_2 => exact within_asyncOperand h e place t
    case h_3 => exact .same fun _ => .of_eq (by rw [h.functionExpression])
    case h_4 => exact .same fun _ => .map (within_classFrom hr h _ _)
    case h_5 => exact .map (within_importExpression hr h t)
    case h_6 => exact .map (within_arrayLiteral hr h t)
    case h_7 => exact .map (within_objectLiteral hr h t)
    case h_8 => exact .same fun _ => within_parenthesisedOperand hr h e
    case h_9 => exact .map (within_templateParts hr h t)
    case h_10 =>
      simp only [h.isAsync, h.noGenerator, h.noGenerator', Bool.and_false, Bool.false_eq_true,
        if_false]
      refine .ite (within_unaryOperand hr h e t .await) (.ite (within_nameOperand h e t) ?_)
      exact .of_eq (by simp only [simpleOperand, h.allowsSuper, h.checkNumber])

omit hr in
/-- A meta property is read where it is allowed. -/
theorem within_metaName (name : String) :
    (metaName f.inFunction name).Within (metaName g.inFunction name) := by
  refine .same fun t => ?_
  cases hallowed : f.inFunction with
  | true =>
    rw [h.inFunction hallowed]
    exact .refl _
  | false =>
    rw [Bool.and_false]
    exact .unexpected

theorem within_construct (first : Token) :
    (construct rules f first).Within (construct rules g first) := by
  refine .same fun isMeta => .ite (.map (within_metaName h "target")) ?_
  extract_lets rest rest'
  have hrest (inner : Node) : (rest inner).Within (rest' inner) :=
    (within_constructorAccesses hr h inner).bind fun callee => .same fun _ =>
      .ite (.map (within_arguments hr h)) (.refl _)
  refine .same fun word => ?_
  cases word with
  | some t => exact (hr.construct h t).bind hrest
  | none => exact (within_operand hr h _).bind fun operand => hrest operand.node

/-! ### Operators -/

theorem within_rightOf (e : Extent) (p : Progress) (operator : Operator) (t : Token) :
    (rightOf rules f e p operator t).Within (rightOf rules g e p operator t) := by
  have hright := hr.expression h (e.atLeast (rightMinimum operator))
  cases operator
  case call => exact .map (within_arguments hr h)
  case index => exact .map (within_subscript hr h)
  case member => exact .refl _
  case conditional =>
    exact (hr.single h _).bind fun _ => .same fun _ => .map (hr.expression h _)
  case comma | binary => exact .map hright
  case assignment => exact .same fun _ => .map hright
  all_goals exact .refl _

theorem within_operation (e : Extent) (p : Progress) :
    (operation rules f e p).Within (operation rules g e p) := by
  refine .ite (.refl _) (.same fun place => .same fun t => ?_)
  extract_lets leave closing update ends
  have hclosing (precedence : Nat) {read read' : Parse Progress} (hread : read.Within read') :
      (closing precedence read).Within (closing precedence read') :=
    .ite (.refl _) (.ite (.refl _) (.map hread))
  refine .ite (.refl _) ?_
  dsimp only
  split
  case h_1 | h_2 => exact .refl _
  case h_3 => exact hclosing _ (.map (within_templateParts hr h t))
  case h_4 => exact .refl _
  case h_5 =>
    exact .ite (.refl _) (.ite (.refl _) (.ite (.refl _) (.map (within_rightOf hr h e _ _ t))))

theorem within_expression (e : Extent) :
    (expression rules f e).Within (expression rules g e) :=
  (within_operand hr h e).bind fun _ => .iterate (fun p => within_operation hr h e p) _ _

end

theorem monotone_rules (bound depth : Nat) : (rules bound depth).Monotone := by
  induction depth with
  | zero => exact ⟨fun _ _ => .refl _, fun _ _ _ _ => .refl _, fun _ _ => .refl _⟩
  | succ depth ih =>
    exact ⟨within_expression ih, within_pattern ih, within_construct ih⟩

end ScriptMin.Grammar
