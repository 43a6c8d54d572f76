import ScriptMin.Proofs.Elsewhere.Statement
import ScriptMin.Proofs.Reading.Gives
import ScriptMin.Proofs.Reading.Program

/-!
# Parentheses around a lone parameter

The only parameter of an arrow function can stand in parentheses or without them. The two spellings
go through different readers with different frames, and with parentheses through an attempt that may
be taken back. From the arrow on it is the same reader at alike places, so what is left to follow is
how each of them gets there, token by token.

Only the word `yield` can be refused as a parameter. Then neither spelling is an expression, but
each is refused in its own way: without parentheses the word is an operand that no arrow can follow,
in parentheses it is a group and behind `async` the argument of a call.
-/

namespace ScriptMin.Grammar

open Source Parse

/-- The reach of every expression: calls belong to it, and neither an arrow nor an opening
parenthesis ends it. -/
structure Extent.TakesCalls (e : Extent) : Prop where
  minimum : e.minimum ≤ memberPrecedence
  arrow : e.stops.contains (.punctuator .arrow) = false
  call : e.stops.contains (.punctuator .openParenthesis) = false

section

variable {f : Frame} {e : Extent} {r : Reader} {c₀ c₁ c₂ c₃ : Cursor} {n a p u : Token}
  {inner : Rules} {isAsync : Bool}

/-! ## The tokens -/

/-- A name in parentheses from a place on, with no end of a line before it. -/
structure InParentheses (c : Cursor) (name : Token) (c' : Cursor) : Prop where
  isName : name.kind.isBindingName
  tokens : ∃ o p c₀ c₁, c.Starts o c₀ ∧ o.kind = .punctuator .openParenthesis ∧
    o.afterNewline = false ∧ c₀.Starts name c₁ ∧ c₁.Starts p c' ∧
    p.kind = .punctuator .closeParenthesis

/-- An arrow on the line of what stands before it, from a place on. -/
structure AtArrow (c : Cursor) (a : Token) (c' : Cursor) : Prop where
  starts : c.Starts a c'
  isArrow : a.kind = .punctuator .arrow
  sameLine : a.afterNewline = false

/-! ## A name that is allowed -/

/-- A list of one parameter that is a plain name. -/
def loneParameter (name : Token) (list parameter : Span) : Node :=
  ⟨list, .signature [⟨parameter, .parameter false (bindingNode name) none⟩]⟩

/-- Only `yield` may be refused as a parameter before the body is read. -/
theorem checkBinding_parameter {name : Name}
    (h : name.text = "yield" → f.generator = false ∧ f.strict = false) :
    checkBinding f .parameter name = .ok () := by
  have hyield : checkYield f.generator f.strict .parameter name = .ok () := by
    unfold checkYield
    by_cases htext : name.text = "yield"
    · simp [h htext]
    · simp [htext]
  simp [checkBinding, hyield, Bind.bind, Except.bind, Pure.pure, Except.pure]

/-- A name that may be bound is a pattern. -/
theorem pattern_ok {kind : Binding} (hn : r.Meets n c₁) (hname : n.kind.isBindingName)
    (hallowed : checkBinding f kind (.ofToken n) = .ok ()) :
    pattern inner f kind r = .ok (bindingNode n, ⟨c₁, none⟩) := by
  have hpatternName : patternName f kind ⟨r.cursor, some ⟨n, .division, c₁⟩⟩ =
      .ok (bindingNode n, ⟨c₁, none⟩) := by
    refine (bind_ok (expectIn_ok (hn.again _) _ hname)).trans ?_
    rw [hallowed]
    rfl
  refine (bind_ok (peekIn_ok hn _)).trans ?_
  dsimp only
  generalize n.kind = k at hname ⊢
  cases k
  case identifier | word => exact hpatternName
  all_goals cases hname

/-- The parameter list that is read, in a frame that allows the name. -/
theorem signature_ok (bound depth : Nat) (hcoherent : r.Coherent)
    (hn : InParentheses r.cursor n c₂)
    (hallowed : n.text = "yield" → f.generator = false ∧ f.strict = false) :
    ∃ s s', signature (rules (bound + 1) (depth + 1)) f r =
      .ok (loneParameter n s s', ⟨c₂, none⟩) := by
  obtain ⟨hname, o, p, c₀, c₁, ho, hopen, -, hn, hp, hclose⟩ := hn
  have hnone (q : Punctuator) : n.kind ≠ .punctuator q := Kind.ne_punctuator hname
  let s' : Span := ⟨c₀.position, c₁.position⟩
  let parameter : Node := ⟨s', .parameter false (bindingNode n) none⟩
  have hn := Reader.Meets.fresh hn
  have hp := Reader.Meets.fresh hp
  refine ⟨⟨r.cursor.position, c₂.position⟩, s', ?_⟩
  refine (bind_ok (mark_ok r)).trans ((bind_ok (expect_ok ⟨hcoherent, ho⟩ hopen)).trans ?_)
  -- one round takes the name and the closing parenthesis, and it is the last
  refine (bind_ok (iterate_done bound [parameter] ⟨c₂, none⟩ ?_)).trans rfl
  refine (bind_ok (mark_ok _)).trans ((bind_ok (took_false hn (hnone _))).trans ?_)
  refine (bind_ok (took_false (hn.again _) (hnone _))).trans ?_
  have hpattern : (rules (bound + 1) (depth + 1)).pattern f.parameters .parameter
      ⟨c₀, some ⟨n, .division, c₁⟩⟩ = .ok (bindingNode n, ⟨c₁, none⟩) :=
    pattern_ok (hn.again .division) hname (checkBinding_parameter hallowed)
  refine (bind_ok hpattern).trans ?_
  have hfallback : (rules (bound + 1) (depth + 1)).fallback f.parameters .closeParenthesis
      ⟨c₁, none⟩ = .ok (none, ⟨c₁, some ⟨p, .division, c₂⟩⟩) :=
    bind_ok (took_false hp (by simp [hclose]))
  refine (bind_ok hfallback).trans ((bind_ok (spanFrom_ok _ _)).trans ?_)
  refine (bind_ok (took_false (hp.again _) (by simp [hclose]))).trans ?_
  exact bind_ok (expect_ok ((hp.again _).again _) hclose)

theorem arrow_ok (hcoherent : r.Coherent) (ha : AtArrow r.cursor a c₁) :
    arrow r = .ok (a, ⟨c₁, none⟩) := by
  refine (bind_ok (expect_ok ⟨hcoherent, ha.starts⟩ ha.isArrow)).trans ?_
  rw [ha.sameLine]
  rfl

/-- What is left of an arrow function once its parameter and its arrow are read. -/
def fromArrow (inner : Rules) (f : Frame) (e : Extent) (isAsync : Bool) (start : Span) (a : Token)
    (parameters : Node) : Parse Operand := do
  checkArrow e a
  arrowFunction inner f e isAsync start parameters

/-- Without parentheses only strict code can refuse the name: an arrow function is no generator. -/
theorem singleParameterArrow_ok (hcoherent : r.Coherent) (ha : AtArrow r.cursor a c₃)
    (hallowed : n.text = "yield" → f.strict = false) (start : Span) :
    singleParameterArrow inner f e isAsync start n r =
      fromArrow inner f e isAsync start a (loneParameter n n.span n.span) ⟨c₃, none⟩ := by
  have hbinding : checkBinding (f.arrow isAsync) .parameter (.ofToken n) = .ok () :=
    checkBinding_parameter fun htext => ⟨rfl, hallowed htext⟩
  refine (bind_ok (arrow_ok hcoherent ha)).trans ?_
  rw [hbinding]
  rfl

/-- In parentheses the generator around the function refuses it as well. -/
theorem parenthesisedArrow?_ok (bound depth : Nat) (f : Frame) (e : Extent) (isAsync : Bool)
    (start : Option Span) (hcoherent : r.Coherent) (hn : InParentheses r.cursor n c₂)
    (ha : AtArrow c₂ a c₃)
    (hallowed : n.text = "yield" → f.generator = false ∧ f.strict = false) :
    ∃ start' s s', parenthesisedArrow? (rules (bound + 1) (depth + 1)) f e isAsync start r =
      (do return some (← fromArrow (rules (bound + 1) (depth + 1)) f e isAsync start' a
        (loneParameter n s s')) : Parse _) ⟨c₃, none⟩ := by
  obtain ⟨s, s', hsignature⟩ :=
    signature_ok (f := { f.arrow isAsync with generator := f.generator }) bound depth hcoherent hn
      hallowed
  refine ⟨start.getD s, s, s', ?_⟩
  have hhead : (attempt (· == .lineTerminatorBeforeArrow) do
      let parameters ← signature (rules (bound + 1) (depth + 1))
        { f.arrow isAsync with generator := f.generator }
      return (parameters, ← arrow)) r = .ok (some (loneParameter n s s', a), ⟨c₃, none⟩) := by
    unfold attempt
    rw [bind_ok hsignature, bind_ok (arrow_ok (Reader.coherent_fresh c₂) ha)]
    rfl
  refine (bind_ok hhead).trans ?_
  simp only [fromArrow, bind_assoc]
  rfl

/-! ## The operand -/

/-- A name is an operand by itself, unless it is an operator where it stands. -/
theorem operand_name (hn : r.Meets n c₁) (hname : n.kind.isBindingName)
    (hasync : n.kind ≠ .word .asyncWord) (hawait : f.isAsync → n.kind ≠ .word .awaitWord)
    (hyield : f.generator → n.kind ≠ .word .yieldWord) :
    operand inner f e r = nameOperand inner f e n ⟨c₁, none⟩ := by
  refine (bind_ok (mark_ok r)).trans ((bind_ok (nextIn_ok hn _)).trans ?_)
  obtain ⟨kind, text, span, newline⟩ := n
  dsimp only at hname hasync hawait hyield ⊢
  -- three of the words have a branch of their own, each behind a guard
  cases kind with
  | identifier => rfl
  | word w =>
    cases w with
    | asyncWord => exact absurd rfl hasync
    | awaitWord =>
      have hsync : f.isAsync = false := by simpa using hawait
      rw [hsync]
      rfl
    | yieldWord =>
      have hplain : f.generator = false := by simpa using hyield
      rw [hplain]
      rfl
    | _ => first | rfl | cases hname
  | _ => cases hname

theorem operand_async {t : Token} (ht : r.Meets t c₁) (hasync : t.kind = .word .asyncWord) :
    operand inner f e r = asyncOperand inner f e r.cursor t ⟨c₁, none⟩ := by
  refine (bind_ok (mark_ok r)).trans ((bind_ok (nextIn_ok ht _)).trans ?_)
  simp only [hasync]
  rfl

theorem operand_openParenthesis (ho : r.Meets a c₀) (hopen : a.kind = .punctuator .openParenthesis) :
    operand inner f e r = parenthesisedOperand inner f e ⟨r.cursor, none⟩ := by
  refine (bind_ok (mark_ok r)).trans ((bind_ok (nextIn_ok ho _)).trans ?_)
  simp only [hopen]
  rfl

theorem operand_parenthesised (hcoherent : r.Coherent) (hn : InParentheses r.cursor n c₂) :
    operand inner f e r = parenthesisedOperand inner f e ⟨r.cursor, none⟩ := by
  obtain ⟨o, -, c₀, -, ho, hopen, -⟩ := hn.tokens
  exact operand_openParenthesis ⟨hcoherent, ho⟩ hopen

/-- A parameter without parentheses. -/
theorem nameOperand_ok (hcoherent : r.Coherent) (ha : AtArrow r.cursor a c₃)
    (hallowed : n.text = "yield" → f.strict = false) :
    nameOperand inner f e n r =
      fromArrow inner f e false n.span a (loneParameter n n.span n.span) ⟨c₃, none⟩ := by
  have harrow : r.Meets a c₃ := ⟨hcoherent, ha.starts⟩
  refine (bind_ok (atPunctuator_ok harrow _)).trans ?_
  rw [ha.isArrow]
  exact singleParameterArrow_ok (harrow.again _).coherent ha hallowed _

/-- A parameter in parentheses. -/
theorem parenthesisedOperand_ok (bound depth : Nat) (hcoherent : r.Coherent)
    (hn : InParentheses r.cursor n c₂) (ha : AtArrow c₂ a c₃)
    (hallowed : n.text = "yield" → f.generator = false ∧ f.strict = false) :
    ∃ start s s', parenthesisedOperand (rules (bound + 1) (depth + 1)) f e r =
      fromArrow (rules (bound + 1) (depth + 1)) f e false start a (loneParameter n s s')
        ⟨c₃, none⟩ := by
  obtain ⟨start, s, s', h⟩ :=
    parenthesisedArrow?_ok bound depth f e false none hcoherent hn ha hallowed
  exact ⟨start, s, s', (bind_map h).trans (congrFun (bind_pure _) _)⟩

/-- A name after `async` is the parameter of an arrow function. -/
theorem asyncOperand_name {place : Cursor} {t : Token} (hn : r.Meets n c₂)
    (hname : n.kind.isBindingName) (hline : n.afterNewline = false) :
    asyncOperand inner f e place t r =
      singleParameterArrow inner f e true t.span n ⟨c₂, none⟩ := by
  have hread := bind_ok (k := singleParameterArrow inner f e true t.span)
    (nextIn_ok (hn.again .division) .division)
  refine (bind_ok (peekIn_ok hn _)).trans ?_
  simp only [hline, Bool.false_eq_true, if_false]
  generalize n.kind = kind at hname ⊢
  cases kind with
  | identifier => exact hread
  | word w =>
    cases w
    all_goals first | exact hread | cases hname
  | _ => cases hname

/-- A parameter after `async` in parentheses. -/
theorem asyncOperand_parenthesised (bound depth : Nat) {place : Cursor} {t : Token}
    (hcoherent : r.Coherent) (hn : InParentheses r.cursor n c₂) (ha : AtArrow c₂ a c₃)
    (hallowed : n.text = "yield" → f.generator = false ∧ f.strict = false) :
    ∃ start s s', asyncOperand (rules (bound + 1) (depth + 1)) f e place t r =
      fromArrow (rules (bound + 1) (depth + 1)) f e true start a (loneParameter n s s')
        ⟨c₃, none⟩ := by
  obtain ⟨o, -, c₀, -, ho, hopen, hline, -⟩ := hn.tokens
  have ho : r.Meets o c₀ := ⟨hcoherent, ho⟩
  obtain ⟨start, s, s', h⟩ := parenthesisedArrow?_ok bound depth f e true (some t.span)
    (ho.again .division).coherent hn ha hallowed
  refine ⟨start, s, s', (bind_ok (peekIn_ok ho _)).trans ?_⟩
  simp only [hline, hopen, Bool.false_eq_true, if_false]
  exact (bind_map h).trans (congrFun (bind_pure _) _)

/-! ## A `yield` that is refused -/

/-- The word `yield` where it is refused as a name: in a generator and in strict code. -/
structure RefusedYield (f : Frame) (t : Token) : Prop where
  kind : t.kind = .word .yieldWord
  text : t.text = "yield"
  refused : f.generator = true ∨ f.strict = true

theorem checkYield_ne_ok {generator strict : Bool} (htext : n.text = "yield")
    (h : generator = true ∨ strict = true) (kind : Binding) :
    checkYield generator strict kind (.ofToken n) ≠ .ok () := by
  unfold checkYield
  obtain rfl | rfl := h
  · simp [Name.ofToken, htext]
  · cases generator <;> cases kind <;> simp [Name.ofToken, htext]

theorem checkBinding_ne_ok (f : Frame) (htext : n.text = "yield")
    (h : f.generator = true ∨ f.strict = true) (kind : Binding) :
    checkBinding f kind (.ofToken n) ≠ .ok () := by
  have hyield := checkYield_ne_ok htext h kind
  unfold checkBinding
  cases hchecked : checkYield f.generator f.strict kind (.ofToken n) with
  | ok => exact absurd hchecked hyield
  | error error => simp [Bind.bind, Except.bind]

theorem singleParameterArrow_fails {start : Span} (htext : n.text = "yield")
    (hstrict : f.strict = true) : (singleParameterArrow inner f e isAsync start n).Fails r := by
  have hrefused : checkBinding (f.arrow isAsync) .parameter (.ofToken n) ≠ .ok () :=
    checkBinding_ne_ok (f.arrow isAsync) htext (.inr hstrict) .parameter
  exact .bind_any fun _ _ => .bind_any fun _ _ => .bind_check fun _ => hrefused

theorem operand_generator (hn : r.Meets n c₁) (hkind : n.kind = .word .yieldWord)
    (hgenerator : f.generator = true) :
    operand inner f e r = yieldOperand inner f e n ⟨c₁, none⟩ := by
  refine (bind_ok (mark_ok r)).trans ((bind_ok (nextIn_ok hn _)).trans ?_)
  simp only [hkind, hgenerator]
  rfl

/-- A `yield` that nothing goes on. In a generator it is an expression, and elsewhere it is no
name in strict code. -/
theorem operand_yield (hyield : RefusedYield f n) (hn : r.Meets n c₁) (hu : c₁.Starts u c₂)
    (hends : u.kind = .punctuator .arrow ∨ u.kind = .punctuator .closeParenthesis) :
    (operand inner f e).Gives r fun o r' =>
      o = ⟨⟨n.span, .yieldExpression false none⟩, true, false⟩ ∧ r'.Coherent ∧ r'.cursor = c₁ := by
  obtain ⟨hkind, htext, hrefused⟩ := hyield
  have hu := Reader.Meets.fresh hu
  cases hgenerator : f.generator with
  | true =>
    refine .of_eq (operand_generator hn hkind hgenerator) ?_
    -- where a tighter operand has to stand, and among parameters, it is refused at once
    refine .ite (fun _ => .unexpected) fun _ => .ite (fun _ => .refuse) fun _ => ?_
    refine .step (peekIn_ok hu _) ?_
    have hnone : (u.kind == .punctuator .asterisk ||
        yieldOperand.startsOperand u.kind) = false := by
      rcases hends with hends | hends <;> rw [hends] <;> decide
    simp only [hnone, Bool.not_false, Bool.or_true, if_true]
    exact .pure ⟨rfl, (hu.again _).coherent, rfl⟩
  | false =>
    have hstrict : f.strict = true := by simpa [hgenerator] using hrefused
    refine .of_eq (operand_name hn ?_ ?_ ?_ ?_) ?_
    case refine_5 =>
      -- the word is a parameter or a variable, and strict code refuses both
      refine .step (atPunctuator_ok hu _) (.ite (fun _ => ?_) fun _ => ?_)
      · exact .of_fails (singleParameterArrow_fails htext hstrict)
      · exact .bind_check fun _ => checkYield_ne_ok htext (.inr hstrict) _
    all_goals simp [hkind, hgenerator, Kind.isBindingName, Word.isBindable]

/-- No operator starts with an arrow, and on its line no semicolon is inserted before it. -/
theorem operation_at_arrow {progress : Progress} (hinserted : progress.inserted = false)
    (hcoherent : r.Coherent) (ha : AtArrow r.cursor a c₁)
    (hstops : e.stops.contains (.punctuator .arrow) = false) :
    (operation inner f e progress).Fails r := by
  refine .ite (fun h => absurd h (by simp [hinserted])) fun _ => ?_
  refine .step (mark_ok r) (.step (nextIn_ok ⟨hcoherent, ha.starts⟩ _) ?_)
  simp only [ha.isArrow, ha.sameLine, hstops, Bool.false_eq_true, if_false]
  have hends : (e.mayInsert && (false || Kind.punctuator .arrow == .punctuator .closeBrace ||
      Kind.punctuator .arrow == .endOfInput)) = false := by
    simp
  simp only [hends]
  exact .unexpected

/-- Without parentheses it is an operand before the arrow. -/
theorem expression_yield_fails (hyield : RefusedYield f n) (hn : r.Meets n c₁)
    (ha : AtArrow c₁ a c₂) (hstops : e.stops.contains (.punctuator .arrow) = false) :
    (expression inner f e).Fails r := by
  refine (operand_yield hyield hn ha.starts (.inl ha.isArrow)).bind ?_
  rintro _ r' ⟨rfl, hcoherent, rfl⟩
  exact .unroll (.of_fails (operation_at_arrow rfl hcoherent ha hstops)) _

/-- Before a closing parenthesis it is all of an expression. -/
theorem expression_yield (bound depth : Nat) (hyield : RefusedYield f n) (hn : r.Meets n c₁)
    (hp : c₁.Starts p c₂) (hclose : p.kind = .punctuator .closeParenthesis)
    (hstops : e.stops.contains (.punctuator .closeParenthesis) = true) :
    ((rules bound depth).expression f e).Gives r fun _ r' => r' = ⟨c₁, none⟩ := by
  cases depth with
  | zero => exact .exhausted
  | succ depth =>
    refine (operand_yield hyield hn hp (.inr hclose)).bind ?_
    rintro _ r' ⟨rfl, hcoherent, rfl⟩
    refine .unroll ?_ _
    refine .ite (fun h => by cases h) fun _ => ?_
    refine .step (mark_ok r') (.step (nextIn_ok ⟨hcoherent, hp⟩ _) ?_)
    simp only [hclose, hstops, if_true]
    exact .step (rewind_ok _ _) (.pure rfl)

theorem pattern_fails {kind : Binding} (hn : r.Meets n c₁) (hname : n.kind.isBindingName)
    (hrefused : checkBinding f kind (.ofToken n) ≠ .ok ()) : (pattern inner f kind).Fails r := by
  have hpatternName : (patternName f kind).Fails ⟨r.cursor, some ⟨n, .division, c₁⟩⟩ :=
    .step (expectIn_ok (hn.again _) _ hname) (.bind_check fun _ => hrefused)
  refine .step (peekIn_ok hn _) ?_
  dsimp only
  generalize n.kind = k at hname ⊢
  cases k
  case identifier | word => exact hpatternName
  all_goals cases hname

/-- It is not the name of a parameter in parentheses either. -/
theorem signature_fails (bound depth : Nat) (hyield : RefusedYield f n) (hcoherent : r.Coherent)
    (hn : InParentheses r.cursor n c₂) : (signature (rules bound depth) f).Fails r := by
  obtain ⟨o, p, c₀, c₁, ho, hopen, -, hname, -⟩ := hn.tokens
  have hnone (q : Punctuator) : n.kind ≠ .punctuator q := Kind.ne_punctuator hn.isName
  have hname := Reader.Meets.fresh hname
  refine .step (mark_ok r) (.step (expect_ok ⟨hcoherent, ho⟩ hopen) (.bind_fails ?_))
  refine .unroll ?_ _
  refine .step (mark_ok _) (.step (took_false hname (hnone _)) ?_)
  refine .step (took_false (hname.again _) (hnone _)) (.bind_fails ?_)
  cases depth with
  | zero => exact .exhausted
  | succ depth =>
    have hrefused := checkBinding_ne_ok f.parameters hyield.text hyield.refused .parameter
    exact pattern_fails (hname.again .division) hn.isName hrefused

/-- So the parentheses are no parameter list. -/
theorem parenthesisedArrow?_none (bound depth : Nat) (start : Option Span)
    (hyield : RefusedYield f n) (hcoherent : r.Coherent) (hn : InParentheses r.cursor n c₂) :
    (parenthesisedArrow? (rules bound depth) f e isAsync start).Gives r fun o r' =>
      o = none ∧ r' = ⟨r.cursor, none⟩ := by
  have hparameters : RefusedYield { f.arrow isAsync with generator := f.generator } n :=
    ⟨hyield.kind, hyield.text, hyield.refused⟩
  refine (Gives.attempt_fails
    (.bind_fails (signature_fails bound depth hparameters hcoherent hn))).bind ?_
  rintro _ _ ⟨rfl, rfl⟩
  exact .pure ⟨rfl, rfl⟩

/-- An arrow after a `yield` in parentheses is refused. -/
theorem parenthesisedOperand_yield (bound depth : Nat) (hyield : RefusedYield f n)
    (hcoherent : r.Coherent) (hn : InParentheses r.cursor n c₂) (ha : AtArrow c₂ a c₃) :
    (parenthesisedOperand (rules bound depth) f e).Fails r := by
  obtain ⟨o, p, c₀, c₁, ho, hopen, -, hname, hp, hclose⟩ := hn.tokens
  have hgroup : ((rules bound depth).parenthesised f).Gives ⟨r.cursor, none⟩ fun _ r' =>
      r' = ⟨c₂, none⟩ := by
    have hvalue := expression_yield (e := .whole .closeParenthesis) bound depth hyield
      (.fresh hname) hp hclose (by decide)
    refine .step (expect_ok (.fresh ho) hopen) ?_
    refine .bind (Q := fun _ r' => r' = ⟨c₁, none⟩) (hvalue.bind fun _ _ h => .pure h) ?_
    rintro value _ rfl
    exact .step (expect_ok (.fresh hp) hclose) (.pure rfl)
  refine (parenthesisedArrow?_none bound depth none hyield hcoherent hn).bind ?_
  rintro _ _ ⟨rfl, rfl⟩
  refine hgroup.bind ?_
  rintro group _ rfl
  refine .step (peekIn_ok (.fresh ha.starts) _) ?_
  simp only [ha.isArrow, beq_self_eq_true, if_true]
  exact .ite (fun _ => .refuse) fun _ => .unexpected

/-- Behind `async` the parentheses are left for a call. -/
theorem asyncOperand_yield (bound depth : Nat) (f : Frame) (e : Extent) (place : Cursor) (t : Token)
    (hyield : RefusedYield f n) (hcoherent : r.Coherent) (hn : InParentheses r.cursor n c₂) :
    (asyncOperand (rules bound depth) f e place t).Gives r fun o r' =>
      o = .plain ⟨t.span, .identifier t.text⟩ ∧ r' = ⟨r.cursor, none⟩ := by
  obtain ⟨o, -, c₀, -, ho, hopen, hline, -⟩ := hn.tokens
  have ho : r.Meets o c₀ := ⟨hcoherent, ho⟩
  refine .step (peekIn_ok ho _) ?_
  simp only [hline, hopen, Bool.false_eq_true, if_false]
  refine (parenthesisedArrow?_none bound depth _ hyield (ho.again _).coherent hn).bind ?_
  rintro _ _ ⟨rfl, rfl⟩
  exact .pure ⟨rfl, rfl⟩

theorem arguments_yield (bound depth : Nat) (hyield : RefusedYield f n) (hn : c₀.Starts n c₁)
    (hp : c₁.Starts p c₂) (hclose : p.kind = .punctuator .closeParenthesis) :
    (arguments (rules bound depth) f).Gives ⟨c₀, none⟩ fun _ r' => r'.Meets p c₂ := by
  have hn := Reader.Meets.fresh hn
  have hp := Reader.Meets.fresh hp
  have hvalue := expression_yield (e := .single [.comma, .closeParenthesis]) bound depth hyield
    ((hn.again .division).again .division) hp.starts hclose (by decide)
  have hword (q : Punctuator) : (n.kind == .punctuator q) = false := by
    rw [hyield.kind]
    rfl
  refine .bind (Q := fun _ r' => r'.Meets p c₂) (.unroll ?_ _) fun _ _ h => .pure h
  refine .step (atPunctuator_ok hn _) (.ite (fun h => absurd h (by simp [hword])) fun _ => ?_)
  refine .step (takeIf_none (hn.again _) (· == .punctuator .ellipsis) (hword _)) ?_
  refine .bind (Q := fun _ r' => r' = ⟨c₁, none⟩) (hvalue.bind fun _ _ h => .pure h) ?_
  rintro value _ rfl
  refine .step (took_false hp (by simp [hclose])) (.ite (fun h => by cases h) fun _ => ?_)
  exact .pure (hp.again _)

/-- After the call no arrow can follow. -/
theorem expression_async_yield (bound depth : Nat) {t : Token} (he : e.TakesCalls)
    (hyield : RefusedYield f n) (ht : r.Meets t c₀) (hasync : t.kind = .word .asyncWord)
    (hn : InParentheses c₀ n c₂) (ha : AtArrow c₂ a c₃) :
    (expression (rules bound depth) f e).Fails r := by
  have hoperand := asyncOperand_yield bound depth f e r.cursor t hyield
    (Reader.coherent_fresh c₀) hn
  obtain ⟨o, p, c₁, c₁', ho, hopen, hline, hname, hp, hclose⟩ := hn.tokens
  refine .bind (.of_eq (operand_async ht hasync) hoperand) ?_
  rintro _ _ ⟨rfl, rfl⟩
  -- the first round reads the call, the second one meets the arrow
  refine .unroll ?_ _
  refine .ite (fun h => by cases h) fun _ => ?_
  refine .step (mark_ok _) (.step (nextIn_ok (.fresh ho) _) ?_)
  simp only [hopen, he.call, Bool.false_eq_true, if_false]
  refine .ite (fun h => absurd he.minimum (Nat.not_le.2 h)) fun _ => ?_
  refine .ite (fun h => by cases h) fun _ => .ite (fun h => by cases h) fun _ => ?_
  refine .bind (Q := fun p r' => p.inserted = false ∧ r' = ⟨c₂, none⟩) ?_ ?_
  · refine (arguments_yield bound depth hyield hname hp hclose).bind fun _ r' hp => ?_
    exact .step (expect_ok hp hclose) (.pure ⟨rfl, rfl⟩)
  · rintro p _ ⟨hinserted, rfl⟩
    refine .pure fun bound => .unroll (.of_fails ?_) bound
    exact operation_at_arrow hinserted (Reader.coherent_fresh c₂) ha he.arrow

end

/-! ## Both spellings -/

/-- An expression at the start of a text: its tree without spans, whether a semicolon was inserted
after it, and the text that is left. -/
def readExpression (f : Frame) (e : Extent) (text : List Char) : Option (Reading × List Char) :=
  (readSource text fun rules => do
    let reading ← rules.expression f e
    return (⟨reading.node.bare, reading.inserted⟩, (← mark).rest)).toOption

section

variable {f : Frame} {e : Extent} {text text' : List Char}

/-- The rules of a source at the level below its first expression. -/
abbrev rulesBelow (length : Nat) : Rules := rules (length + 2) (4 * length + 3)

theorem readExpression_eq (f : Frame) (e : Extent) (text : List Char) :
    readExpression f e text =
      match expression (rulesBelow text.length) f e (.ofSource text) with
      | .ok (reading, r) => some (⟨reading.node.bare, reading.inserted⟩, r.cursor.rest)
      | .error _ => none := by
  have hrun (k : Reading → Parse (Reading × List Char)) :
      ((rulesFor text.length).expression f e >>= k).run (.ofSource text) =
        (expression (rulesBelow text.length) f e >>= k) (.ofSource text) := rfl
  unfold readExpression readSource
  rw [hrun]
  cases hvalue : expression (rulesBelow text.length) f e (.ofSource text) with
  | ok result =>
    obtain ⟨reading, r⟩ := result
    rw [bind_ok hvalue]
    rfl
  | error failure =>
    simp only [Bind.bind, StateT.bind, Except.bind, hvalue]
    cases failure <;> rfl

theorem readExpression_eq_none
    (h : (expression (rulesBelow text.length) f e).Fails (.ofSource text)) :
    readExpression f e text = none := by
  rw [readExpression_eq]
  split
  case h_1 reading r hvalue => exact (h reading r hvalue).elim
  case h_2 => rfl

/-- Neither run is stopped by the bound on its work, so alike runs give the same. -/
theorem readExpression_congr
    (h : RunsAlike Reading.Alike (expression (rulesBelow text.length) f e (.ofSource text))
      (expression (rulesBelow text'.length) f e (.ofSource text'))) :
    readExpression f e text = readExpression f e text' := by
  have hends (text : List Char) :
      expression (rulesBelow text.length) f e (.ofSource text) ≠ .error .exhausted := by
    have hr : (rulesFor text.length).Proceeds text (text.length + 1) :=
      (proceeds_rules text _ _).2 _ (by omega) (by omega)
    have hstart : Reader.Good text (text.length + 1) (.ofSource text) :=
      ⟨Cursor.standsIn_ofSource text, Reader.coherent_fresh _, Nat.lt_succ_self _⟩
    have hruns : (expression (rulesBelow text.length) f e).Runs (.ofSource text) _ :=
      hr.expression f e hstart
    intro hexhausted
    unfold Runs at hruns
    rw [hexhausted] at hruns
    exact hruns rfl
  have hleft := hends text
  have hright := hends text'
  rw [readExpression_eq, readExpression_eq]
  generalize expression (rulesBelow text.length) f e (.ofSource text) = x at *
  generalize expression (rulesBelow text'.length) f e (.ofSource text') = y at *
  cases h with
  | ok hreading hr => simp only [hr.cursor.rest, hreading.node, hreading.inserted]
  | refused => rfl
  | left => exact absurd rfl hleft
  | right => exact absurd rfl hright

/-- An arrow function whose parameter was read in two ways. -/
theorem readExpression_of_fromArrow {isAsync : Bool} {c d : Cursor} {a : Token}
    {start start' span span' : Span} {parameters parameters' : Node} (hcd : c.Alike d)
    (hparameters : parameters.Alike parameters')
    (h : operand (rulesBelow text.length) f e (.ofSource text) =
      fromArrow (rulesBelow text.length) f e isAsync start { a with span } parameters ⟨c, none⟩)
    (h' : operand (rulesBelow text'.length) f e (.ofSource text') =
      fromArrow (rulesBelow text'.length) f e isAsync start' { a with span := span' } parameters'
        ⟨d, none⟩) :
    readExpression f e text = readExpression f e text' := by
  have hrules : (rulesBelow text.length).Agree (rulesBelow text'.length) := agree_rules ..
  have hfrom : (fromArrow (rulesBelow text.length) f e isAsync start { a with span }
      parameters).Agrees (fromArrow (rulesBelow text'.length) f e isAsync start'
        { a with span := span' } parameters') Operand.Alike :=
    (agrees_checkArrow e (.at span')).bind_any fun _ _ =>
      agrees_arrowFunction hrules f e isAsync start start' hparameters
  have hrun := (hfrom.bind fun _ _ hoperand => Agrees.iterate (I := Progress.Alike)
    (fun _ _ hprogress => agrees_operation hrules f e hprogress) (rulesBelow text.length).bound
    (rulesBelow text'.length).bound
    (show (Progress.ofOperand _).Alike (.ofOperand _) from
      ⟨hoperand.node, hoperand.isLoose, hoperand.inserted, rfl⟩)) _ _ (.of_cursor hcd)
  refine readExpression_congr ?_
  rw [expression, expression, bind_eq h, bind_eq h']
  exact hrun

/-! ## The texts -/

/-- A name in parentheses, from the parenthesis on. -/
theorem InParentheses.of_name {name : List Char} (h : IsBindingToken name) (rest : List Char)
    {c : Cursor} {o : Token} {position : Nat}
    (ho : c.Starts o ⟨name ++ ')' :: rest, position⟩)
    (hopen : o.kind = .punctuator .openParenthesis) (hline : o.afterNewline = false) :
    InParentheses c (nameToken name position) ⟨rest, position + byteLength name + 1⟩ where
  isName := h.word.2.1
  tokens := by
    have hclose : ¬ (')' :: rest).head?.any continuesWord :=
      (by decide : ¬ continuesWord ')' = true)
    exact ⟨o, _, _, _, ho, hopen, hline, h.starts hclose position,
      Cursor.starts_closeParenthesis rest _, rfl⟩

theorem loneParameter_alike (name : List Char) (position position' : Nat) (s s' t t' : Span) :
    (loneParameter (nameToken name position) s s').Alike
      (loneParameter (nameToken name position') t t') :=
  Node.Alike.mk rfl

variable {name tail : List Char}

/-- The name as a parameter is refused only if it is `yield`, in a generator or in strict code. -/
theorem refused_or_allowed (name : List Char) (f : Frame) :
    (name = "yield".toList ∧ (f.generator = true ∨ f.strict = true)) ∨
      (name = "yield".toList → f.generator = false ∧ f.strict = false) := by
  by_cases h : f.generator = true ∨ f.strict = true
  · by_cases hname : name = "yield".toList
    · exact .inl ⟨hname, h⟩
    · exact .inr fun hyield => absurd hyield hname
  · exact .inr fun _ => by simpa using h

theorem nameToken_text_eq {position : Nat} {text : String}
    (h : (nameToken name position).text = text) : name = text.toList := by
  rw [← h]
  exact String.toList_ofList.symm

theorem readExpression_parameter (he : e.TakesCalls) (hname : IsBindingToken name)
    (htail : StartsWithArrow tail) (hasync : name ≠ "async".toList)
    (hawait : f.isAsync = true → name ≠ "await".toList) :
    readExpression f e (name ++ tail) = readExpression f e ('(' :: (name ++ ')' :: tail)) := by
  obtain ⟨a, body, harrow, hline, hstarts⟩ := htail.starts
  have hpositive : 0 < 0 + byteLength name := by
    rw [Nat.zero_add]
    exact hname.byteLength_pos
  have hn := Reader.Meets.fresh (hname.starts htail.not_continuesWord 0)
  obtain ⟨span, stop, hstop, ha⟩ := hstarts _ hpositive
  have hin := InParentheses.of_name hname tail (Cursor.starts_openParenthesis _ 0) rfl rfl
  obtain ⟨span', stop', hstop', ha'⟩ := hstarts (0 + 1 + byteLength name + 1) (Nat.succ_pos _)
  replace ha : AtArrow _ _ _ := ⟨ha, harrow, hline⟩
  replace ha' : AtArrow _ _ _ := ⟨ha', harrow, hline⟩
  obtain ⟨rfl, hrefused⟩ | hallowed := refused_or_allowed name f
  · -- it is no parameter in either spelling
    rw [readExpression_eq_none, readExpression_eq_none]
    · refine .bind_fails (.of_eq (operand_parenthesised (Reader.coherent_fresh _) hin) ?_)
      exact parenthesisedOperand_yield _ _ ⟨rfl, rfl, hrefused⟩ (Reader.coherent_fresh _) hin ha'
    · exact expression_yield_fails ⟨rfl, rfl, hrefused⟩ hn ha he.arrow
  · have hcd : Cursor.Alike ⟨body, stop⟩ ⟨body, stop'⟩ := .behind body hstop hstop'
    have hallowed (position : Nat) (h : (nameToken name position).text = "yield") :=
      hallowed (nameToken_text_eq h)
    obtain ⟨start, s, s', hparenthesised⟩ := parenthesisedOperand_ok (f := f) (e := e) _ _
      (Reader.coherent_fresh _) hin ha' (hallowed _)
    have hname : operand (rulesBelow (name ++ tail).length) f e (.ofSource (name ++ tail)) = _ :=
      operand_name hn hname.word.2.1 (fun h => hasync (Lexer.eq_of_wordKind h))
        (fun h hkind => hawait h (Lexer.eq_of_wordKind hkind)) fun h hkind => by
          have hplain := (hallowed 0 (congrArg String.ofList (Lexer.eq_of_wordKind hkind))).1
          rw [h] at hplain
          cases hplain
    exact readExpression_of_fromArrow hcd (loneParameter_alike ..)
      (hname.trans (nameOperand_ok (Reader.coherent_fresh _) ha fun h => (hallowed _ h).2))
      ((operand_parenthesised (Reader.coherent_fresh _) hin).trans hparenthesised)

theorem isBindingToken_async : IsBindingToken "async".toList := ⟨_, _, rfl, rfl, rfl⟩

theorem readExpression_asyncParameter (he : e.TakesCalls) (hname : IsBindingToken name)
    (htail : StartsWithArrow tail)
    (hyield : f.generator = true → f.strict = false → name ≠ "yield".toList)
    {gap gap' : List Char} (hgap : ∀ c ∈ gap, isBlank c) (hgap' : ∀ c ∈ gap', isBlank c)
    (hseparated : gap ≠ []) :
    readExpression f e ("async".toList ++ (gap ++ (name ++ tail))) =
      readExpression f e ("async".toList ++ (gap' ++ '(' :: (name ++ ')' :: tail))) := by
  obtain ⟨a, body, harrow, hline, hstarts⟩ := htail.starts
  obtain ⟨htrivia, -, -⟩ := hname.token htail.not_continuesWord .division
  have hasync := isBindingToken_async
  let position := 0 + byteLength "async".toList
  have hpositive : 0 < position := by decide
  have hrest : ¬ (gap ++ (name ++ tail)).head?.any continuesWord :=
    not_continuesWord_of_blanks hgap fun h => absurd h hseparated
  have hrest' : ¬ (gap' ++ '(' :: (name ++ ')' :: tail)).head?.any continuesWord :=
    not_continuesWord_of_blanks hgap' fun _ => (by decide : ¬ continuesWord '(' = true)
  have ht := Reader.Meets.fresh (hasync.starts hrest 0)
  have ht' := Reader.Meets.fresh (hasync.starts hrest' 0)
  have hn : Cursor.Starts ⟨gap ++ (name ++ tail), position⟩
      (nameToken name (position + byteLength gap)) _ :=
    Cursor.starts_of_blanks hgap htrivia
      (fun mode => (hname.token htail.not_continuesWord mode).2.2) hpositive
  have ho := Cursor.starts_of_blanks hgap' rfl
    (fun mode => Lexer.token_openParenthesis mode (name ++ ')' :: tail)) hpositive
  have hin := InParentheses.of_name hname tail ho rfl rfl
  obtain ⟨span, stop, hstop, ha⟩ := hstarts (position + byteLength gap + byteLength name) (by omega)
  obtain ⟨span', stop', hstop', ha'⟩ :=
    hstarts (position + byteLength gap' + byteLength ['('] + byteLength name + 1) (Nat.succ_pos _)
  replace ha : AtArrow _ _ _ := ⟨ha, harrow, hline⟩
  replace ha' : AtArrow _ _ _ := ⟨ha', harrow, hline⟩
  have hoperand (rules : Rules) : operand rules f e _ = _ :=
    (operand_async ht rfl).trans (asyncOperand_name (.fresh hn) hname.word.2.1 rfl)
  obtain ⟨rfl, hrefused⟩ | hallowed := refused_or_allowed name f
  · -- behind `async` a generator alone refuses it in parentheses only, which is left out
    have hstrict : f.strict = true := by
      by_contra hsloppy
      have hsloppy : f.strict = false := by simpa using hsloppy
      exact hyield (by simpa [hsloppy] using hrefused) hsloppy rfl
    rw [readExpression_eq_none, readExpression_eq_none]
    · exact expression_async_yield _ _ he ⟨rfl, rfl, hrefused⟩ ht' rfl hin ha'
    · exact .bind_fails (.of_eq (hoperand _) (singleParameterArrow_fails rfl hstrict))
  · have hcd : Cursor.Alike ⟨body, stop⟩ ⟨body, stop'⟩ := .behind body hstop hstop'
    have hallowed (position : Nat) (h : (nameToken name position).text = "yield") :=
      hallowed (nameToken_text_eq h)
    obtain ⟨start, s, s', hparenthesised⟩ := asyncOperand_parenthesised (f := f) (e := e) _ _
      (Reader.coherent_fresh _) hin ha' (hallowed _)
    exact readExpression_of_fromArrow hcd (loneParameter_alike ..)
      ((hoperand _).trans (singleParameterArrow_ok (Reader.coherent_fresh _) ha
        (fun h => (hallowed _ h).2) _))
      ((operand_async ht' rfl).trans hparenthesised)

/-- Parentheses around the only parameter of an arrow function do not matter: with them and without
them the text is read as the same tree, or as no expression at all. The exceptions are the words
that are read as something else before a parameter is looked for: `async`, `await` in an async
function and, behind `async`, `yield` in a sloppy generator. -/
theorem readExpression_loneParameter (he : e.TakesCalls) (hname : IsBindingToken name)
    (htail : StartsWithArrow tail) :
    (name ≠ "async".toList → (f.isAsync = true → name ≠ "await".toList) →
      readExpression f e (name ++ tail) = readExpression f e ('(' :: (name ++ ')' :: tail))) ∧
    ((f.generator = true → f.strict = false → name ≠ "yield".toList) →
      ∀ gap gap', (∀ c ∈ gap, isBlank c) → (∀ c ∈ gap', isBlank c) → gap ≠ [] →
        readExpression f e ("async".toList ++ (gap ++ (name ++ tail))) =
          readExpression f e ("async".toList ++ (gap' ++ '(' :: (name ++ ')' :: tail)))) :=
  ⟨readExpression_parameter he hname htail, fun hyield _ _ hgap hgap' hseparated =>
    readExpression_asyncParameter he hname htail hyield hgap hgap' hseparated⟩

theorem readExpression_loneParameter_x :
    (readExpression (.topLevel false) .ofStatement "x=>1".toList).isSome ∧
      readExpression (.topLevel false) .ofStatement "x=>1".toList =
        readExpression (.topLevel false) .ofStatement "(x)=>1".toList ∧
      readExpression (.topLevel false) .ofStatement "async x=>1".toList =
        readExpression (.topLevel false) .ofStatement "async(x)=>1".toList := by
  have hx := readExpression_loneParameter (f := .topLevel false) (e := .ofStatement)
    ⟨by decide, by decide, by decide⟩ (⟨_, _, rfl, rfl, rfl⟩ : IsBindingToken "x".toList)
    (⟨_, _, rfl, rfl, rfl⟩ : StartsWithArrow "=>1".toList)
  have hplain := hx.1 (by decide) nofun
  have hasync := hx.2 nofun [' '] [] (List.forall_mem_singleton.2 rfl) nofun nofun
  refine ⟨by decide +kernel, ?_, ?_⟩
  · rw [show "x".toList ++ "=>1".toList = "x=>1".toList by decide,
      show '(' :: ("x".toList ++ ')' :: "=>1".toList) = "(x)=>1".toList by decide] at hplain
    exact hplain
  · rw [show "async".toList ++ ([' '] ++ ("x".toList ++ "=>1".toList)) = "async x=>1".toList by
        decide,
      show "async".toList ++ ([] ++ '(' :: ("x".toList ++ ')' :: "=>1".toList)) =
        "async(x)=>1".toList by decide] at hasync
    exact hasync

end

end ScriptMin.Grammar
