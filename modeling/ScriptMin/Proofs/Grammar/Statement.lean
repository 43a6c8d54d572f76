import ScriptMin.Grammar.Statement
import ScriptMin.Proofs.Grammar.Expression

/-!
# Statements are well formed

Declarations of variables, loops, imports, exports and all other statements.
-/

namespace ScriptMin.Grammar

open Parse Node

variable {rules : Rules} (hr : rules.Sound)

/-! ## Names of modules -/

theorem ensures_importedName (f : Frame) : (importedName f).Ensures (Fits .binding) :=
  .bind_any fun t => .bind_any fun _ => .pure (fits_bindingNode t rfl)

theorem ensures_importName (f : Frame) :
    (importName f).Ensures fun name => name.asName.Fits .binding := by
  refine .bind_any fun target => .bind_any fun _ => .ite (fun _ => ?_) fun _ => ?_
  · exact .bind (ensures_importedName f) fun _ h => .pure h
  · refine .ite (fun _ => .unexpected) fun _ => .bind_any fun _ => .pure ?_
    exact fits_bindingNode target rfl

theorem ensures_exportName : exportName.Ensures fun name => name.asName.Fits .binding := by
  refine .bind_any fun target => .bind_any fun _ => ?_
  extract_lets rest
  have hrest (asName : Token) : (rest asName).Ensures fun name => name.asName.Fits .binding :=
    .pure (fits_bindingNode asName rfl)
  exact .ite (fun _ => .bind_any hrest) fun _ => hrest target

theorem ensures_moduleNames (bound : Nat) {name : Parse (ModuleName Node)}
    (h : name.Ensures fun name => name.asName.Fits .binding) :
    (moduleNames bound name).Ensures fun names => Filled (ModuleNames.listed names).places := by
  refine .bind_any fun _ => ?_
  refine .bind (.iterate (I := fun read => ∀ n ∈ read, n.asName.Fits .binding)
    (Q := fun reversed => ∀ n ∈ reversed, n.asName.Fits .binding)
    (fun read hread => ?_) bound nofun)
    fun reversed hreversed => .pure
      (by simpa [ModuleNames.places, ModuleNames.children] using hreversed)
  refine .bind_any fun _ => .ite (fun _ => .pure hread) fun _ => .bind h fun name hname => ?_
  have hread := List.forall_mem_cons (p := fun n => Fits .binding (ModuleName.asName n)).2
    ⟨hname, hread⟩
  exact .bind_any fun _ => .ite (fun _ => .pure hread) fun _ => .bind_any fun _ => .pure hread

theorem ensures_importNames (f : Frame) :
    (importNames rules f).Ensures fun names => Filled names.places := by
  refine .bind_any fun _ => .ite (fun _ => .bind_any fun _ => ?_) fun _ => ?_
  · refine .bind (ensures_importedName f) fun name hname => .pure ?_
    simpa [ModuleNames.places, ModuleNames.children] using hname
  · exact .bind (ensures_moduleNames _ (ensures_importName f)) fun _ h => .pure h

theorem ensures_importBindings (f : Frame) :
    (importBindings rules f).Ensures fun (defaultName, names) =>
      (∀ n ∈ defaultName, n.Fits .binding) ∧ ∀ n ∈ names, Filled n.places := by
  refine .bind_any fun _ => .ite (fun _ => ?_) fun _ => ?_
  · refine .bind (ensures_importedName f) fun name hname => ?_
    refine .bind_any fun _ => .ite (fun _ => ?_) fun _ => ?_
    · refine .bind (ensures_importNames f) fun names hnames => .pure ?_
      exact ⟨by simpa using hname, by simpa using hnames⟩
    · exact .pure ⟨by simpa using hname, nofun⟩
  · exact .bind (ensures_importNames f) fun names hnames => .pure ⟨nofun, by simpa using hnames⟩

theorem ensures_importDeclaration (f : Frame) :
    (importDeclaration rules f).Ensures (Fits .statement) := by
  refine .bind_any fun start => .bind_any fun _ => .bind_any fun t => ?_
  extract_lets rest
  have hrest (names : Option Node × Option (ModuleNames Node))
      (h : (∀ n ∈ names.1, n.Fits .binding) ∧ ∀ n ∈ names.2, Filled n.places) :
      (rest names).Ensures (Fits .statement) := by
    refine .bind_any fun source => .bind_any fun _ => .bind_any fun span => .pure ?_
    exact fits_mk rfl (by simpa [Shape.places] using h)
  refine .ite (fun _ => hrest (none, none) ⟨by simp, by simp⟩) fun _ => ?_
  exact .bind (ensures_importBindings f) fun names h => .bind_any fun _ => hrest names h

theorem ensures_exportNames :
    (exportNames rules).Ensures fun s => ∀ span, Fits .statement ⟨span, s⟩ := by
  refine .bind (ensures_moduleNames _ ensures_exportName) fun names hnames => .bind_any fun _ => ?_
  extract_lets rest
  have hrest (source : Option String) :
      (rest source).Ensures fun s => ∀ span, Fits .statement ⟨span, s⟩ :=
    .bind_any fun _ => .pure fun span => fits_mk rfl hnames
  exact .ite (fun _ => .bind_any fun source => hrest (some source)) fun _ => hrest none

theorem ensures_exportAll : exportAll.Ensures fun s => ∀ span, Fits .statement ⟨span, s⟩ := by
  refine .bind_any fun _ => ?_
  extract_lets rest
  have hrest (asName : Option Node) (h : ∀ n ∈ asName, n.Fits .binding) :
      (rest asName).Ensures fun s => ∀ span, Fits .statement ⟨span, s⟩ := by
    refine .bind_any fun _ => .bind_any fun source => .bind_any fun _ => .pure fun span => ?_
    exact fits_mk rfl (by simpa [Shape.places, ModuleNames.places, ModuleNames.children] using h)
  refine .ite (fun _ => .bind_any fun t => ?_) fun _ => hrest none (by simp)
  exact hrest (some (bindingNode t)) (by simpa using fits_bindingNode t rfl)

include hr

/-! ## Declarations of variables -/

theorem ensures_variableDeclaration (f : Frame) (place : VariablesPlace) :
    (variableDeclaration rules f place).Ensures (Fits .variables) := by
  refine .bind_any fun first => ?_
  split
  case h_1 => exact .unexpected
  case h_2 kind _ =>
    refine .bind (.iterate (I := fun read => ∀ d ∈ read, Filled (Declarator.places d))
      (Q := fun reversed => ∀ d ∈ reversed, Filled (Declarator.places d))
      (fun read hread => ?_) rules.bound (List.forall_mem_nil _))
      fun reversed hreversed => .pure (fits_mk rfl (by simpa [Shape.places] using hreversed))
    have hdeclarator : (declarator rules f place).Ensures fun read => Filled read.1.places := by
      refine .bind (hr.pattern f _) fun pattern hpattern => .bind_any fun _ => ?_
      refine .ite (fun _ => .bind (hr.expression f _) fun value hvalue => ?_) fun _ => ?_
      · refine .pure ?_
        simpa [Declarator.places] using ⟨hpattern, hvalue⟩
      · exact .pure (by simpa [Declarator.places] using hpattern)
    refine .bind hdeclarator ?_
    rintro ⟨d, inserted⟩ hd
    have hread := List.forall_mem_cons (p := fun d => Filled (Declarator.places d)).2 ⟨hd, hread⟩
    exact .bind_any fun _ => .ite (fun _ => .pure hread) fun _ => .pure hread

/-! ## Loops -/

/-- What stands first in the head of a loop fits there. -/
def HeadStart.Fits : HeadStart → Prop
  | .declaration n => Node.Fits .variables n
  | .expression n => Node.Fits .expression n
  | .nothing => True

theorem ensures_headStart (f : Frame) : (headStart rules f).Ensures HeadStart.Fits := by
  refine .bind_any fun _ => .ite (fun _ => ?_) fun _ => ?_
  · exact .bind (ensures_variableDeclaration hr f _) fun _ h => .pure h
  refine .bind_any fun _ => .ite (fun _ => .pure trivial) fun _ => ?_
  exact .bind (hr.expression f _) fun _ h => .pure h

omit hr in
theorem ensures_forTarget (t : Token) {start : HeadStart} (h : start.Fits) :
    (forTarget t start).Ensures fun target => Filled [target.place] := by
  cases start with
  | nothing => exact .unexpected
  | declaration n =>
    simp only [forTarget]
    split
    · exact .pure (filled_cons.2 ⟨h, filled_nil⟩)
    · exact .unexpected
  | expression n =>
    refine .bind (.check (Q := Node.Fits .target) fun t ht => ?_) fun target htarget => .pure ?_
    · exact fits_assignmentTarget h.wellFormed ht
    · simpa [ForTarget.place] using htarget

theorem ensures_eachHead (f : Frame) (awaits : Bool) {start : HeadStart} (h : start.Fits) :
    (eachHead rules f awaits start).Ensures fun head => Filled head.places := by
  refine .bind_any fun t => ?_
  extract_lets isOf
  refine .ite (fun _ => .unexpected) fun _ => .bind (ensures_forTarget t h) fun target htarget => ?_
  extract_lets rest
  have hrest (subject : Node) (hsubject : Fits .expression subject) :
      (rest subject).Ensures fun head => Filled head.places := by
    refine .bind_any fun _ => .pure ?_
    show Filled ([target.place] ++ [(Role.expression, subject)])
    exact filled_append.2 ⟨htarget, by simpa using hsubject⟩
  exact .ite (fun _ => .bind (hr.single f _) hrest) fun _ => .bind (hr.whole f _) hrest

theorem ensures_optionalPart (f : Frame) (stop : Punctuator) :
    (optionalPart rules f stop).Ensures fun part => ∀ n ∈ part, Fits .expression n := by
  refine .bind_any fun _ => .ite (fun _ => .pure nofun) fun _ => ?_
  exact .bind (hr.whole f _) fun value hvalue => .bind_any fun _ => .pure (by simpa using hvalue)

theorem ensures_steppedHead (f : Frame) {start : HeadStart} (h : start.Fits) :
    (steppedHead rules f start).Ensures fun head => Filled head.places := by
  refine .bind_any fun _ => ?_
  extract_lets init
  have hinit : Filled init.places := by
    cases start with
    | nothing => exact filled_nil
    | declaration n | expression n => exact filled_cons.2 ⟨h, filled_nil⟩
  refine .bind (ensures_optionalPart hr f _) fun condition hcondition => ?_
  refine .bind (ensures_optionalPart hr f _) fun post hpost => .pure ?_
  simpa [ForHead.places] using ⟨hinit, hcondition, hpost⟩

theorem ensures_forHead (f : Frame) (awaits : Bool) :
    (forHead rules f awaits).Ensures fun head => Filled head.places := by
  refine .bind_any fun _ => .bind (ensures_headStart hr f) fun start hstart => .bind_any fun t => ?_
  refine .ite (fun _ => ensures_eachHead hr f awaits hstart) fun _ => ?_
  exact .ite (fun _ => .unexpected) fun _ => ensures_steppedHead hr f hstart

theorem ensures_forLoop (f : Frame) : (forLoop rules f).Ensures (Fits .statement) := by
  refine .bind_any fun first => .bind_any fun t => ?_
  extract_lets awaits loop skipped
  have hloop (u : Unit) : (loop u).Ensures (Fits .statement) := by
    refine .bind (ensures_forHead hr f _) fun head hhead => ?_
    refine .bind (hr.statement _) fun body hbody => .pure (fits_mk rfl ?_)
    simpa [Shape.places] using ⟨hhead, hbody⟩
  refine .ite (fun _ => .ite (fun _ => .bind_unexpected) fun _ => ?_) fun _ => hloop ()
  exact .bind_any hloop

theorem ensures_whileLoop (f : Frame) : (whileLoop rules f).Ensures (Fits .statement) := by
  refine .bind_any fun first => .bind (hr.parenthesised f) fun condition hcondition => ?_
  refine .bind (hr.statement _) fun body hbody => .pure (fits_mk rfl ?_)
  simpa [Shape.places] using ⟨hcondition, hbody⟩

theorem ensures_doWhileLoop (f : Frame) : (doWhileLoop rules f).Ensures (Fits .statement) := by
  refine .bind_any fun first => .bind (hr.statement _) fun body hbody => ?_
  refine .bind_any fun _ => .bind_any fun _ => .bind (hr.whole f _) fun condition hcondition => ?_
  refine .bind_any fun _ => .bind_any fun _ => .pure (fits_mk rfl ?_)
  simpa [Shape.places] using ⟨hbody, hcondition⟩

/-! ## Exports -/

theorem ensures_exportDefault (f : Frame) :
    (exportDefault rules f).Ensures fun s => ∀ span, Fits .statement ⟨span, s⟩ := by
  have hdeclared (n : Node) (hn : n.Fits .exportable) (span : Source.Span) :
      Fits .statement ⟨span, .exportDeclaration n true⟩ :=
    fits_mk rfl (by simpa [Shape.places] using hn)
  refine .bind_any fun t => ?_
  extract_lets rest
  have hrest (isFunction : Bool) :
      (rest isFunction).Ensures fun s => ∀ span, Fits .statement ⟨span, s⟩ := by
    refine .ite (fun _ => ?_) fun _ => .ite (fun _ => ?_) fun _ => ?_
    · exact .bind (ensures_functionDeclaration hr f _) fun n hn => .pure (hdeclared n hn)
    · exact .bind (ensures_classDeclaration hr f _) fun n hn => .pure (hdeclared n hn)
    · refine .bind (hr.expression f _) fun value hvalue => ?_
      extract_lets exported
      have hexported (u : Unit) :
          (exported u).Ensures fun s => ∀ span, Fits .statement ⟨span, s⟩ :=
        .pure fun span => fits_mk rfl (by simpa [Shape.places] using hvalue)
      exact .ite (fun _ => .bind_any hexported) fun _ => hexported ()
  exact .ite (fun _ => hrest true) fun _ => .bind_any hrest

theorem ensures_exportDeclaration (f : Frame) (t : Token) :
    (exportDeclaration rules f t).Ensures fun s => ∀ span, Fits .statement ⟨span, s⟩ := by
  refine .bind (hr.statement f) fun declaration hdeclaration => ?_
  have hexported (h : Role.exportable.accepts declaration.shape) (span : Source.Span) :
      Fits .statement ⟨span, .exportDeclaration declaration false⟩ :=
    fits_mk rfl (filled_cons.2 ⟨⟨h, hdeclaration.wellFormed⟩, filled_nil⟩)
  split
  case h_1 hshape | h_2 hshape | h_3 hshape => exact .pure (hexported (by rw [hshape]; rfl))
  case h_4 => exact .unexpected

theorem ensures_exportStatement (f : Frame) :
    (exportStatement rules f).Ensures (Fits .statement) := by
  refine .bind_any fun start => .bind_any fun _ => .bind_any fun place => .bind_any fun t => ?_
  extract_lets rest
  have hrest (s : Shape Node) (h : ∀ span, Fits .statement ⟨span, s⟩) :
      (rest s).Ensures (Fits .statement) :=
    .bind_any fun span => .pure (h span)
  split
  case h_1 => exact .bind_any fun _ => .bind ensures_exportNames hrest
  case h_2 => exact .bind ensures_exportAll hrest
  case h_3 => exact .bind (ensures_exportDefault hr f) hrest
  case h_4 =>
    refine .ite (fun _ => .bind_any fun _ => ?_) fun _ => .bind_unexpected
    exact .bind (ensures_exportDeclaration hr f t) hrest

/-! ## Simple statements -/

theorem ensures_statementValue (f : Frame) :
    (statementValue rules f).Ensures (Fits .expression) := by
  refine .bind (hr.expression f _) fun value hvalue => ?_
  extract_lets rest
  have hrest (u : Unit) : (rest u).Ensures (Fits .expression) := .pure hvalue
  exact .ite (fun _ => .bind_any fun _ => hrest ()) fun _ => hrest ()

theorem ensures_expressionStatement (f : Frame) :
    (expressionStatement rules f).Ensures (Fits .statement) :=
  .bind (ensures_statementValue hr f) fun value hvalue =>
    .pure (fits_mk rfl (by simpa [Shape.places] using hvalue))

theorem ensures_variableStatement (f : Frame) :
    (variableStatement rules f).Ensures (Fits .statement) :=
  .bind (ensures_variableDeclaration hr f _) fun declaration h =>
    .pure (fits_mk rfl (by simpa [Shape.places] using h))

theorem ensures_returnStatement (f : Frame) :
    (returnStatement rules f).Ensures (Fits .statement) := by
  refine .bind_any fun first => .ite (fun _ => .refuse) fun _ => .bind_any fun after => ?_
  extract_lets rest
  have hrest (isBare : Bool) : (rest isBare).Ensures (Fits .statement) := by
    refine .ite (fun _ => .pure (fits_mk rfl filled_nil)) fun _ => ?_
    refine .bind (ensures_statementValue hr f) fun value hvalue => .pure (fits_mk rfl ?_)
    simpa [Shape.places] using hvalue
  exact .ite (fun _ => hrest true) fun _ => .bind_any hrest

theorem ensures_throwStatement (f : Frame) :
    (throwStatement rules f).Ensures (Fits .statement) := by
  refine .bind_any fun first => .bind_any fun _ => .ite (fun _ => .refuse) fun _ => ?_
  refine .bind (ensures_statementValue hr f) fun value hvalue => .pure (fits_mk rfl ?_)
  simpa [Shape.places] using hvalue

omit hr in
theorem ensures_jumpStatement (f : Frame) (j : Jump) :
    (jumpStatement f j).Ensures (Fits .statement) := by
  have hjump (span : Source.Span) (label : Option String) :
      Fits .statement ⟨span, j.shape label⟩ := by
    cases j <;> exact fits_mk rfl filled_nil
  refine .bind_any fun first => .bind_any fun after => .ite (fun _ => ?_) fun _ => ?_
  · exact .bind_any fun _ => .bind_any fun _ => .bind_any fun _ => .pure (hjump _ _)
  · exact .bind_any fun _ => .bind_any fun _ => .pure (hjump _ _)

theorem ensures_labelledStatement (f : Frame) :
    (labelledStatement rules f).Ensures (Fits .statement) := by
  refine .bind_any fun label => .bind_any fun _ => .ite (fun _ => .refuse) fun _ => ?_
  refine .bind_any fun _ => .bind (hr.statement _) fun statement hstatement => .pure ?_
  exact fits_mk rfl (by simpa [Shape.places] using hstatement)

/-! ## Compound statements -/

theorem ensures_block (f : Frame) : (block rules f).Ensures (Fits .body) := by
  refine .bind_any fun first => .bind (ensures_statements hr f) ?_
  rintro ⟨body, close⟩ hbody
  exact .pure (fits_mk rfl (by simpa [Shape.places] using hbody))

theorem ensures_ifStatement (f : Frame) : (ifStatement rules f).Ensures (Fits .statement) := by
  refine .bind_any fun first => .bind (hr.parenthesised f) fun test htest => ?_
  refine .bind (hr.statement f) fun consequent hconsequent => .bind_any fun hasElse => ?_
  extract_lets rest
  have hrest (alternate : Option Node) (h : ∀ n ∈ alternate, Fits .statement n) :
      (rest alternate).Ensures (Fits .statement) :=
    .pure (fits_mk rfl (by simpa [Shape.places] using ⟨htest, hconsequent, h⟩))
  refine .ite (fun _ => ?_) fun _ => hrest none (by simp)
  exact .bind (hr.statement f) fun n hn => hrest (some n) (by simpa using hn)

theorem ensures_catchClause (f : Frame) :
    (catchClause rules f).Ensures fun clause => ∀ n ∈ clause, Fits .handler n := by
  refine .bind_any fun first => ?_
  cases first with
  | none => exact .pure nofun
  | some first =>
    refine .bind_any fun hasPattern => ?_
    extract_lets rest
    have hrest (pattern : Option Node) (h : ∀ n ∈ pattern, Fits .target n) :
        (rest pattern).Ensures fun clause => ∀ n ∈ clause, Fits .handler n := by
      refine .bind (ensures_block hr f) fun body hbody => .pure ?_
      have hclause (span : Source.Span) : Fits .handler ⟨span, .catchClause pattern body⟩ :=
        fits_mk rfl (by simpa [Shape.places] using ⟨h, hbody⟩)
      simpa using hclause _
    refine .ite (fun _ => ?_) fun _ => hrest none nofun
    exact .bind (hr.pattern f _) fun n hn => .bind_any fun _ => hrest (some n) (by simpa using hn)

theorem ensures_tryStatement (f : Frame) : (tryStatement rules f).Ensures (Fits .statement) := by
  refine .bind_any fun first => .bind (ensures_block hr f) fun body hbody => ?_
  refine .bind (ensures_catchClause hr f) fun handler hhandler => .bind_any fun hasFinalizer => ?_
  extract_lets rest
  have hrest (finalizer : Option Node) (h : ∀ n ∈ finalizer, Fits .body n) :
      (rest finalizer).Ensures (Fits .statement) := by
    dsimp only [rest]
    split
    · exact .refuse
    · exact .pure (fits_mk rfl (by simpa [Shape.places] using ⟨hbody, hhandler, h⟩))
  refine .ite (fun _ => ?_) fun _ => hrest none (by simp)
  exact .bind (ensures_block hr f) fun n hn => hrest (some n) (by simpa using hn)

theorem ensures_switchCase (f : Frame) : (switchCase rules f).Ensures (Fits .branch) := by
  refine .bind_any fun first => .bind_any fun hasTest => ?_
  extract_lets rest
  have hrest (test : Option Node) (h : ∀ n ∈ test, Fits .expression n) :
      (rest test).Ensures (Fits .branch) := by
    refine .bind_any fun colon => ?_
    refine .bind (.collect (Q := Fits .statement) (.bind_any fun t => ?_) rules.bound)
      fun body hbody => .pure (fits_mk rfl (by simpa [Shape.places] using ⟨h, hbody⟩))
    split
    case h_1 | h_2 | h_3 => exact .pure (by simp)
    case h_4 => exact .bind (hr.statement f) fun n hn => .pure (by simpa using hn)
  refine .ite (fun _ => ?_) fun _ => .bind_any fun _ => hrest none (by simp)
  exact .bind (hr.whole f _) fun n hn => hrest (some n) (by simpa using hn)

theorem ensures_switchStatement (f : Frame) :
    (switchStatement rules f).Ensures (Fits .statement) := by
  refine .bind_any fun first => .bind (hr.parenthesised f) fun subject hsubject => ?_
  refine .bind_any fun _ => ?_
  refine .bind (.collect (Q := Fits .branch) (.bind_any fun _ => ?_) rules.bound)
    fun cases hcases => .bind_any fun _ => .pure (fits_mk rfl ?_)
  · refine .ite (fun _ => .pure nofun) fun _ => ?_
    exact .bind (ensures_switchCase hr _) fun n hn => .pure (by simpa using hn)
  · simpa [Shape.places] using ⟨hsubject, hcases⟩

theorem ensures_withStatement (f : Frame) :
    (withStatement rules f).Ensures (Fits .statement) := by
  refine .bind_any fun first => .ite (fun _ => .refuse) fun _ => ?_
  refine .bind (hr.parenthesised f) fun object hobject => ?_
  refine .bind (hr.statement f) fun body hbody => .pure (fits_mk rfl ?_)
  simpa [Shape.places] using ⟨hobject, hbody⟩

/-! ## All statements -/

theorem ensures_plainStatement (f : Frame) (t : Token) :
    (plainStatement rules f t).Ensures (Fits .statement) := by
  unfold plainStatement
  split
  case h_1 => exact (ensures_block hr f).mono fun _ => Fits.of_body
  case h_2 => exact .bind_any fun t => .pure (fits_mk rfl filled_nil)
  case h_3 | h_4 => exact ensures_jumpStatement f _
  case h_5 => exact (ensures_classDeclaration hr f _).mono fun _ => Fits.of_exportable
  case h_6 => exact .bind_any fun t => .bind_any fun _ => .pure (fits_mk rfl filled_nil)
  case h_7 => exact ensures_doWhileLoop hr f
  case h_8 => exact ensures_exportStatement hr f
  case h_9 => exact ensures_forLoop hr f
  case h_10 => exact (ensures_functionDeclaration hr f _).mono fun _ => Fits.of_exportable
  case h_11 => exact ensures_ifStatement hr f
  case h_12 =>
    refine .bind_any fun _ => .ite (fun _ => ?_) fun _ => ?_
    · exact ensures_expressionStatement hr f
    · exact ensures_importDeclaration f
  case h_13 => exact ensures_returnStatement hr f
  case h_14 => exact ensures_switchStatement hr f
  case h_15 => exact ensures_throwStatement hr f
  case h_16 => exact ensures_tryStatement hr f
  case h_17 => exact ensures_whileLoop hr f
  case h_18 => exact ensures_withStatement hr f
  case h_19 =>
    refine .bind_any fun _ => .ite (fun _ => ensures_variableStatement hr f) fun _ => ?_
    refine .bind_any fun _ => .ite (fun _ => ?_) fun _ => ensures_expressionStatement hr f
    exact (ensures_functionDeclaration hr f _).mono fun _ => Fits.of_exportable

theorem ensures_statement (f : Frame) : (statement rules f).Ensures (Fits .statement) := by
  refine .bind_any fun t => ?_
  extract_lets rest
  have hrest (isLabelled : Bool) : (rest isLabelled).Ensures (Fits .statement) :=
    .ite (fun _ => ensures_labelledStatement hr f) fun _ => ensures_plainStatement hr _ t
  exact .ite (fun _ => .bind_any fun _ => hrest _) fun _ => hrest false

end ScriptMin.Grammar
