import ScriptMin.Grammar.Program
import ScriptMin.Proofs.Elsewhere.Expression

/-!
# Statements and programs elsewhere

Declarations, loops, imports, exports and all other statements are the same wherever their text
stands, so the rules that tie the constructs together agree at any two levels of nesting.
-/

namespace ScriptMin.Grammar

open Parse Node

variable {rules rules' : Rules} (hr : rules.Agree rules')

/-! ## Declarations of variables -/

theorem agrees_continuesVariables (place : VariablesPlace) (inserted : Bool) :
    (continuesVariables place inserted).Agrees (continuesVariables place inserted) Eq := by
  cases place with
  | loopHead => exact .tookPunctuator _
  | statement =>
    refine (Agrees.tookPunctuator _).bind_eq fun _ => .ite (fun _ => .pure rfl) fun _ => ?_
    refine Agrees.peek.bind_token fun t s => .ite (fun _ => .pure rfl) fun _ => ?_
    exact (Agrees.expectPunctuator _).bind_any fun _ _ => .pure rfl

theorem agrees_startsLet : startsLet.Agrees startsLet Eq :=
  Agrees.peekSecond.bind_token fun _ _ => .pure rfl

theorem agrees_startsVariables : startsVariables.Agrees startsVariables Eq := by
  refine Agrees.peek.bind_token fun t s => ?_
  dsimp only
  split
  case h_1 | h_2 => exact .pure rfl
  case h_3 => exact agrees_startsLet
  case h_4 => exact .pure rfl

theorem agrees_startsAsyncFunction : startsAsyncFunction.Agrees startsAsyncFunction Eq :=
  Agrees.peek.bind_token fun _ _ => .ite
    (fun _ => Agrees.peekSecond.bind_token fun _ _ => .pure rfl) fun _ => .pure rfl

include hr

theorem agrees_declarator (f : Frame) (place : VariablesPlace) :
    (declarator rules f place).Agrees (declarator rules' f place) fun a b =>
      a.1.map bare = b.1.map bare ∧ a.2 = b.2 := by
  refine (hr.pattern f _).bind fun _ _ hpattern => (Agrees.tookPunctuator _).bind_eq fun _ =>
    .ite (fun _ => ?_) fun _ => .pure ⟨?_, rfl⟩
  · exact (hr.expression f _).bind fun _ _ hvalue =>
      .pure ⟨by simp only [Declarator.map, hpattern, Option.map_some, hvalue.node], hvalue.inserted⟩
  · simp only [Declarator.map, hpattern]

theorem agrees_variableDeclaration (f : Frame) (place : VariablesPlace) :
    (variableDeclaration rules f place).Agrees (variableDeclaration rules' f place)
      Node.Alike := by
  refine Agrees.next.bind_token fun first s => ?_
  dsimp only
  split
  case h_1 => exact .unexpected (.at s)
  case h_2 =>
    let Alike (ds ds' : List (Declarator Node)) : Prop := ds.map (·.map bare) = ds'.map (·.map bare)
    refine (Agrees.iterate (I := Alike) (R := Alike) (fun read read' hread => ?_) _ _ (by rfl)).bind
      fun _ _ h => .pure (Node.Alike.mk ?_)
    · refine (agrees_declarator hr f place).bind ?_
      rintro ⟨d, inserted⟩ ⟨d', _⟩ ⟨hd, rfl⟩
      have hread : Alike (d :: read) (d' :: read') := List.cons_eq_cons.2 ⟨hd, hread⟩
      exact (agrees_continuesVariables place inserted).bind_eq fun _ =>
        .ite (fun _ => .pure (.again hread)) fun _ => .pure (.done hread)
    · simpa [Shape.map] using h

/-! ## Loops -/

/-- The same start of the head of a loop. -/
inductive HeadStart.Alike : HeadStart → HeadStart → Prop
  | declaration {n m : Node} (h : n.Alike m) : HeadStart.Alike (.declaration n) (.declaration m)
  | expression {n m : Node} (h : n.Alike m) : HeadStart.Alike (.expression n) (.expression m)
  | nothing : HeadStart.Alike .nothing .nothing

theorem agrees_headStart (f : Frame) :
    (headStart rules f).Agrees (headStart rules' f) HeadStart.Alike := by
  refine agrees_startsVariables.bind_eq fun _ => .ite (fun _ => ?_) fun _ => ?_
  · exact (agrees_variableDeclaration hr f _).bind fun _ _ h => .pure (.declaration h)
  refine (Agrees.atPunctuator _).bind_eq fun _ => .ite (fun _ => .pure .nothing) fun _ => ?_
  exact (hr.expression f _).bind fun _ _ h => .pure (.expression h.node)

omit hr in
/-- A declaration with one declarator has one elsewhere too. -/
theorem alike_declarator {n m : Node} (h : n.Alike m) {kind : VariableKind}
    {d : Declarator Node} (hn : n.shape = .variableDeclaration kind [d]) :
    ∃ d', m.shape = .variableDeclaration kind [d'] := by
  have hm : m.shape.map bare = .variableDeclaration kind [d.map bare] := by
    rw [← h.shape, hn]
    rfl
  generalize m.shape = shape at hm
  cases shape
  case variableDeclaration kind' ds =>
    obtain ⟨rfl, hds⟩ := Shape.variableDeclaration.inj hm
    obtain ⟨d', rfl, -⟩ := List.map_eq_singleton_iff.1 hds
    exact ⟨d', rfl⟩
  all_goals cases hm

omit hr in
theorem agrees_forTarget {t u : Token} (ht : t.Alike u) {start start' : HeadStart}
    (h : start.Alike start') :
    (forTarget t start).Agrees (forTarget u start') fun a b => a.map bare = b.map bare := by
  cases h with
  | nothing => exact .unexpected ht
  | expression h =>
    exact (Agrees.check (assignmentTarget_alike _ h)).bind fun _ _ h =>
      .pure (congrArg ForTarget.pattern h)
  | declaration h =>
    unfold forTarget
    dsimp only
    split
    case h_1 hn =>
      obtain ⟨d, hm⟩ := alike_declarator h hn
      rw [hm]
      exact .pure (congrArg ForTarget.declaration h)
    case h_2 hn =>
      split
      case h_1 hm =>
        obtain ⟨d, hn'⟩ := alike_declarator h.symm hm
        exact absurd hn' (hn _ _)
      case h_2 => exact .unexpected ht

theorem agrees_eachHead (f : Frame) (awaits : Bool) {start start' : HeadStart}
    (h : start.Alike start') :
    (eachHead rules f awaits start).Agrees (eachHead rules' f awaits start') fun a b =>
      a.map bare = b.map bare := by
  refine Agrees.next.bind_token fun t s => .ite (fun _ => .unexpected (.at s)) fun _ => ?_
  refine (agrees_forTarget (.at s) h).bind fun target target' htarget => ?_
  extract_lets rest rest'
  have hrest (subject subject' : Node) (h : subject.Alike subject') :
      (rest subject).Agrees (rest' subject') fun a b => a.map bare = b.map bare :=
    (Agrees.expectPunctuator _).bind_any fun _ _ =>
      .pure (congrArg₂ (ForHead.each (t.kind == .word .ofWord) awaits) htarget h)
  exact .ite (fun _ => (hr.single f _).bind hrest) fun _ => (hr.whole f _).bind hrest

theorem agrees_optionalPart (f : Frame) (stop : Punctuator) :
    (optionalPart rules f stop).Agrees (optionalPart rules' f stop) OptionsAlike := by
  refine (Agrees.tookPunctuator _).bind_eq fun _ => .ite (fun _ => .pure rfl) fun _ => ?_
  exact (hr.whole f _).bind fun _ _ h => (Agrees.expectPunctuator _).bind_any fun _ _ =>
    .pure (congrArg some h)

theorem agrees_steppedHead (f : Frame) {start start' : HeadStart} (h : start.Alike start') :
    (steppedHead rules f start).Agrees (steppedHead rules' f start') fun a b =>
      a.map bare = b.map bare := by
  refine (Agrees.expectPunctuator _).bind_any fun _ _ => ?_
  refine (agrees_optionalPart hr f _).bind fun _ _ hcondition => ?_
  refine (agrees_optionalPart hr f _).bind fun _ _ hpost => .pure ?_
  cases h with
  | nothing => simp only [ForHead.map, hcondition, hpost]
  | declaration h => simp only [ForHead.map, ForInit.map, h, hcondition, hpost]
  | expression h => simp only [ForHead.map, ForInit.map, h, hcondition, hpost]

theorem agrees_forHead (f : Frame) (awaits : Bool) :
    (forHead rules f awaits).Agrees (forHead rules' f awaits) fun a b =>
      a.map bare = b.map bare := by
  refine (Agrees.expectPunctuator _).bind_any fun _ _ => ?_
  refine (agrees_headStart hr f).bind fun _ _ h => Agrees.peek.bind_token fun t s => ?_
  refine .ite (fun _ => agrees_eachHead hr f awaits h) fun _ => ?_
  exact .ite (fun _ => .unexpected (.at s)) fun _ => agrees_steppedHead hr f h

theorem agrees_forLoop (f : Frame) : (forLoop rules f).Agrees (forLoop rules' f) Node.Alike := by
  refine (Agrees.expectWord _).bind_any fun _ _ => Agrees.peek.bind_token fun t s => ?_
  extract_lets awaits loop waiting awaits' loop' waiting'
  have hloop (u u' : Unit) : (loop u).Agrees (loop' u') Node.Alike := by
    refine (agrees_forHead hr f awaits).bind fun _ _ hhead => ?_
    refine (hr.statement _).bind fun _ _ hbody => ?_
    exact .pure (Node.Alike.mk (congrArg₂ Shape.forLoop hhead hbody))
  have hwaiting (u u' : Unit) : (waiting u).Agrees (waiting' u') Node.Alike :=
    Agrees.skip.bind_any hloop
  refine .ite (fun _ => .ite (fun _ => ?_) fun _ => hwaiting () ()) fun _ => hloop () ()
  exact .bind_unexpected (.at s)

theorem agrees_whileLoop (f : Frame) :
    (whileLoop rules f).Agrees (whileLoop rules' f) Node.Alike := by
  refine (Agrees.expectWord _).bind_any fun _ _ => ?_
  refine (hr.parenthesised f).bind fun _ _ hcondition => (hr.statement _).bind fun _ _ hbody => ?_
  exact .pure (Node.Alike.mk (congrArg₂ Shape.whileLoop hcondition hbody))

theorem agrees_doWhileLoop (f : Frame) :
    (doWhileLoop rules f).Agrees (doWhileLoop rules' f) Node.Alike := by
  refine (Agrees.expectWord _).bind_any fun _ _ => (hr.statement _).bind fun _ _ hbody => ?_
  refine (Agrees.expectWord _).bind_any fun _ _ => ?_
  refine (Agrees.expectPunctuator _).bind_any fun _ _ => ?_
  refine (hr.whole f _).bind fun _ _ hcondition => ?_
  refine (Agrees.expectPunctuator _).bind_any fun _ _ => ?_
  exact (Agrees.tookPunctuator _).bind_any fun _ _ =>
    .pure (Node.Alike.mk (congrArg₂ Shape.doWhileLoop hbody hcondition))

/-! ## Imports and exports -/

omit hr in
theorem agrees_moduleSource : moduleSource.Agrees moduleSource Eq :=
  (Agrees.expectIn (· == .string)).bind_token fun _ _ =>
    (Agrees.require _ _).bind_eq fun _ => .pure rfl

omit hr in
theorem agrees_importedName (f : Frame) :
    (importedName f).Agrees (importedName f) Node.Alike :=
  (Agrees.expectIn _).bind_token fun _ s =>
    (Agrees.check (checksAlike_binding _ _ (by rfl))).bind_any fun _ _ =>
      .pure (bindingNode_alike (.at s))

/-- The same name in braces. -/
abbrev NamesAlike (a b : ModuleName Node) : Prop := a.map bare = b.map bare

omit hr in
theorem NamesAlike.mk {target : String} {n m : Node} (h : n.Alike m) :
    NamesAlike ⟨target, n⟩ ⟨target, m⟩ := congrArg (ModuleName.mk target) h

omit hr in
theorem agrees_importName (f : Frame) : (importName f).Agrees (importName f) NamesAlike := by
  refine (Agrees.expectIn _).bind_token fun target s => (Agrees.tookWord _).bind_eq fun _ =>
    .ite (fun _ => ?_) fun _ => .ite (fun _ => .unexpected (.at s)) fun _ => ?_
  · exact (agrees_importedName f).bind fun _ _ h => .pure (NamesAlike.mk h)
  · exact (Agrees.check (checksAlike_binding _ _ (by rfl))).bind_any fun _ _ =>
      .pure (NamesAlike.mk (bindingNode_alike (.at s)))

omit hr in
theorem agrees_exportName : exportName.Agrees exportName NamesAlike := by
  refine (Agrees.expectIn _).bind_token fun target s => (Agrees.tookWord _).bind_eq fun _ => ?_
  extract_lets rest rest'
  have hrest (t u : Token) (h : t.Alike u) : (rest t).Agrees (rest' u) NamesAlike :=
    .pure (NamesAlike.mk (bindingNode_alike h))
  exact .ite (fun _ => (Agrees.expectIn _).bind hrest) fun _ => .bind_pure (hrest _ _ (.at s))

omit hr in
theorem agrees_moduleNames (bound bound' : Nat) {name : Parse (ModuleName Node)}
    (h : name.Agrees name NamesAlike) :
    (moduleNames bound name).Agrees (moduleNames bound' name) fun a b =>
      a.map (·.map bare) = b.map (·.map bare) := by
  let Alike (ns ns' : List (ModuleName Node)) : Prop := ns.map (·.map bare) = ns'.map (·.map bare)
  refine (Agrees.expectPunctuator _).bind_any fun _ _ => ?_
  refine (Agrees.iterate (I := Alike) (R := Alike) (fun read read' hread => ?_) _ _ (by rfl)).bind
    fun _ _ h => .pure (by simpa using h)
  refine (Agrees.tookPunctuator _).bind_eq fun _ => .ite (fun _ => .pure (.done hread)) fun _ => ?_
  refine h.bind fun _ _ hname => ?_
  extract_lets read read'
  have hread : Alike read read' := List.cons_eq_cons.2 ⟨hname, hread⟩
  refine (Agrees.tookPunctuator _).bind_eq fun _ => .ite (fun _ => .pure (.again hread)) fun _ => ?_
  exact (Agrees.expectPunctuator _).bind_any fun _ _ => .pure (.done hread)

omit hr in
theorem agrees_startsImportExpression :
    startsImportExpression.Agrees startsImportExpression Eq :=
  Agrees.peekSecond.bind_token fun _ _ => .pure rfl

omit hr in
theorem agrees_importNames (f : Frame) :
    (importNames rules f).Agrees (importNames rules' f) fun a b => a.map bare = b.map bare := by
  refine (Agrees.tookPunctuator _).bind_eq fun _ => .ite (fun _ => ?_) fun _ => ?_
  · refine (Agrees.expectWord _).bind_any fun _ _ => ?_
    exact (agrees_importedName f).bind fun _ _ h => .pure (congrArg (ModuleNames.all ∘ some) h)
  · exact (agrees_moduleNames _ _ (agrees_importName f)).bind fun _ _ h =>
      .pure (congrArg ModuleNames.listed h)

/-- The same names, bound by an import. -/
def BindingsAlike (a b : Option Node × Option (ModuleNames Node)) : Prop :=
  OptionsAlike a.1 b.1 ∧ a.2.map (·.map bare) = b.2.map (·.map bare)

omit hr in
theorem agrees_importBindings (f : Frame) :
    (importBindings rules f).Agrees (importBindings rules' f) BindingsAlike := by
  refine Agrees.peek.bind_token fun _ _ => .ite (fun _ => ?_) fun _ => ?_
  · refine (agrees_importedName f).bind fun _ _ hname => (Agrees.tookPunctuator _).bind_eq fun _ =>
      .ite (fun _ => ?_) fun _ => .pure ⟨congrArg some hname, rfl⟩
    exact (agrees_importNames f).bind fun _ _ h => .pure ⟨congrArg some hname, congrArg some h⟩
  · exact (agrees_importNames f).bind fun _ _ h => .pure ⟨rfl, congrArg some h⟩

omit hr in
theorem agrees_importDeclaration (f : Frame) :
    (importDeclaration rules f).Agrees (importDeclaration rules' f) Node.Alike := by
  refine Agrees.mark.bind_any fun _ _ => (Agrees.expectWord _).bind_any fun _ _ => ?_
  refine Agrees.peek.bind_token fun _ _ => ?_
  extract_lets rest rest'
  have hrest (names names' : Option Node × Option (ModuleNames Node))
      (h : BindingsAlike names names') : (rest names).Agrees (rest' names') Node.Alike := by
    refine agrees_moduleSource.bind_eq fun source => Agrees.endStatement.bind_any fun _ _ => ?_
    refine (Agrees.spanFrom _ _).bind_any fun _ _ => .pure (Node.Alike.mk ?_)
    simp only [Shape.map, h.1, h.2]
  refine .ite (fun _ => .bind_pure (hrest (none, none) (none, none) ⟨rfl, rfl⟩)) fun _ => ?_
  exact (agrees_importBindings f).bind fun _ _ h => (Agrees.expectWord _).bind_any fun _ _ =>
    .bind_pure (hrest _ _ h)

/-- The same shape of a node. -/
abbrev ShapesAlike (s s' : Shape Node) : Prop := s.map bare = s'.map bare

omit hr in
theorem agrees_exportNames :
    (exportNames rules).Agrees (exportNames rules') ShapesAlike := by
  refine (agrees_moduleNames _ _ agrees_exportName).bind fun names names' hnames => ?_
  refine (Agrees.tookWord _).bind_eq fun _ => ?_
  extract_lets rest rest'
  have hrest (source : Option String) : (rest source).Agrees (rest' source) ShapesAlike :=
    Agrees.endStatement.bind_any fun _ _ =>
      .pure (congrArg (Shape.exportList · source) (congrArg ModuleNames.listed hnames))
  exact .ite (fun _ => agrees_moduleSource.bind_eq fun _ => .bind_pure (hrest _)) fun _ =>
    .bind_pure (hrest none)

omit hr in
theorem agrees_exportAll : exportAll.Agrees exportAll ShapesAlike := by
  refine (Agrees.tookWord _).bind_eq fun _ => ?_
  extract_lets rest
  have hrest (asName asName' : Option Node) (h : OptionsAlike asName asName') :
      (rest asName).Agrees (rest asName') ShapesAlike := by
    refine (Agrees.expectWord _).bind_any fun _ _ => agrees_moduleSource.bind_eq fun source => ?_
    exact Agrees.endStatement.bind_any fun _ _ =>
      .pure (congrArg (Shape.exportList · (some source)) (congrArg ModuleNames.all h))
  refine .ite (fun _ => ?_) fun _ => .bind_pure (hrest none none rfl)
  exact (Agrees.expectIn _).bind fun _ _ h =>
    .bind_pure (hrest (some _) (some _) (congrArg some (bindingNode_alike h)))

theorem agrees_exportDefault (f : Frame) :
    (exportDefault rules f).Agrees (exportDefault rules' f) ShapesAlike := by
  refine Agrees.peek.bind_token fun t s => ?_
  extract_lets rest rest'
  have hrest (isFunction : Bool) : (rest isFunction).Agrees (rest' isFunction) ShapesAlike := by
    refine .ite (fun _ => ?_) fun _ => .ite (fun _ => ?_) fun _ => ?_
    · exact (agrees_functionDeclaration hr f _).bind fun _ _ h =>
        .pure (congrArg (Shape.exportDeclaration · true) h)
    · exact (agrees_classDeclaration hr f _).bind fun _ _ h =>
        .pure (congrArg (Shape.exportDeclaration · true) h)
    · refine (hr.expression f _).bind fun value value' hvalue => ?_
      extract_lets finish finish'
      have hfinish (u u' : Unit) : (finish u).Agrees (finish' u') ShapesAlike :=
        .pure (congrArg Shape.exportDefault hvalue.node)
      rw [hvalue.inserted]
      exact .ite (fun _ => Agrees.endStatement.bind_any hfinish) fun _ => hfinish () ()
  exact .ite (fun _ => .bind_pure (hrest true)) fun _ => agrees_startsAsyncFunction.bind_eq hrest

/-- The declarations that can be exported. -/
def isExportable (shape : Shape Node) : Bool :=
  shape matches .variableStatement _ | .functionDeclaration .. | .classDeclaration ..

theorem agrees_exportDeclaration (f : Frame) {t u : Token} (h : t.Alike u) :
    (exportDeclaration rules f t).Agrees (exportDeclaration rules' f u) ShapesAlike := by
  have hite (rules : Rules) (t : Token) : exportDeclaration rules f t = (do
      let n ← rules.statement f
      if isExportable n.shape then return .exportDeclaration n false else unexpected t) := by
    refine congrArg (rules.statement f >>= ·) (funext fun n => ?_)
    cases n.shape <;> rfl
  rw [hite, hite]
  refine (hr.statement f).bind fun n m hn => ?_
  have hsame (n : Node) : isExportable (n.shape.map bare) = isExportable n.shape := by
    cases n.shape <;> rfl
  rw [← hsame n, ← hsame m, hn.shape]
  exact .ite (fun _ => .pure (congrArg (Shape.exportDeclaration · false) hn)) fun _ => .unexpected h

theorem agrees_exportStatement (f : Frame) :
    (exportStatement rules f).Agrees (exportStatement rules' f) Node.Alike := by
  refine Agrees.mark.bind_any fun _ _ => (Agrees.expectWord _).bind_any fun _ _ => ?_
  refine Agrees.mark.bind fun place place' hplace => Agrees.next.bind_token fun t s => ?_
  extract_lets rest rest'
  have hrest (shape shape' : Shape Node) (h : ShapesAlike shape shape') :
      (rest shape).Agrees (rest' shape') Node.Alike :=
    (Agrees.spanFrom _ _).bind_any fun _ _ => .pure (Node.Alike.mk h)
  dsimp only
  split
  case h_1 => exact (Agrees.rewind hplace).bind_any fun _ _ => agrees_exportNames.bind hrest
  case h_2 => exact agrees_exportAll.bind hrest
  case h_3 => exact (agrees_exportDefault hr f).bind hrest
  case h_4 =>
    refine .ite (fun _ => ?_) fun _ => .bind_unexpected (.at s)
    exact (Agrees.rewind hplace).bind_any fun _ _ =>
      (agrees_exportDeclaration hr f (.at s)).bind hrest

/-! ## Simple statements -/

theorem agrees_statementValue (f : Frame) :
    (statementValue rules f).Agrees (statementValue rules' f) Node.Alike := by
  refine (hr.expression f _).bind fun value value' hvalue => ?_
  extract_lets rest rest'
  have hrest (u u' : Unit) : (rest u).Agrees (rest' u') Node.Alike := .pure hvalue.node
  rw [hvalue.inserted]
  refine .ite (fun _ => ?_) fun _ => hrest () ()
  exact (Agrees.expectPunctuator _).bind_any fun _ _ => .bind_pure (hrest () ())

theorem agrees_expressionStatement (f : Frame) :
    (expressionStatement rules f).Agrees (expressionStatement rules' f) Node.Alike :=
  (agrees_statementValue hr f).bind fun _ _ h =>
    .pure (Node.Alike.mk (congrArg Shape.expressionStatement h))

theorem agrees_variableStatement (f : Frame) :
    (variableStatement rules f).Agrees (variableStatement rules' f) Node.Alike :=
  (agrees_variableDeclaration hr f _).bind fun _ _ h =>
    .pure (Node.Alike.mk (congrArg Shape.variableStatement h))

omit hr in
theorem agrees_emptyStatement : emptyStatement.Agrees emptyStatement Node.Alike :=
  (Agrees.expectPunctuator _).bind_any fun _ _ => .pure (Node.Alike.mk rfl)

omit hr in
theorem agrees_debuggerStatement : debuggerStatement.Agrees debuggerStatement Node.Alike :=
  (Agrees.expectWord _).bind_any fun _ _ => Agrees.endStatement.bind_any fun _ _ =>
    .pure (Node.Alike.mk rfl)

theorem agrees_returnStatement (f : Frame) :
    (returnStatement rules f).Agrees (returnStatement rules' f) Node.Alike := by
  refine (Agrees.expectWord _).bind_token fun first s => .ite (fun _ => .refuse rfl) fun _ => ?_
  refine Agrees.peek.bind_token fun after s => ?_
  extract_lets rest rest'
  have hrest (isBare : Bool) : (rest isBare).Agrees (rest' isBare) Node.Alike := by
    refine .ite (fun _ => .pure (Node.Alike.mk rfl)) fun _ => ?_
    exact (agrees_statementValue hr f).bind fun _ _ h =>
      .pure (Node.Alike.mk (congrArg (Shape.returnStatement ∘ some) h))
  exact .ite (fun _ => .bind_pure (hrest true)) fun _ => (Agrees.tookPunctuator _).bind_eq hrest

theorem agrees_throwStatement (f : Frame) :
    (throwStatement rules f).Agrees (throwStatement rules' f) Node.Alike := by
  refine (Agrees.expectWord _).bind_token fun first s => Agrees.peek.bind_token fun _ _ =>
    .ite (fun _ => .refuse rfl) fun _ => ?_
  exact (agrees_statementValue hr f).bind fun _ _ h =>
    .pure (Node.Alike.mk (congrArg Shape.throwStatement h))

/-! ## Labels and jumps -/

omit hr in
theorem checksAlike_plain (j : Jump) (f : Frame) {t u : Token} (h : t.Alike u) :
    ChecksAlike (j.checkPlain f t) (j.checkPlain f u) := by
  obtain ⟨s⟩ := h
  cases j with
  | leave => exact .ite (fun _ => .ok trivial) fun _ => .error rfl
  | again => exact .ite (fun _ => .ok trivial) fun _ => .error rfl

omit hr in
theorem checksAlike_labelled (j : Jump) (f : Frame) {t u : Token} (h : t.Alike u) :
    ChecksAlike (j.checkLabelled f t) (j.checkLabelled f u) := by
  obtain ⟨s⟩ := h
  refine ResultsAlike.bind (checksAlike_label f (.at s)) fun _ _ _ => ?_
  dsimp only
  split
  case h_1 => exact .error rfl
  case h_2 => exact .ite (fun _ => .error rfl) fun _ => .ok trivial

omit hr in
theorem agrees_jumpStatement (f : Frame) (j : Jump) :
    (jumpStatement f j).Agrees (jumpStatement f j) Node.Alike := by
  have hshape (label : Option String) : (j.shape label).map bare = j.shape label := by
    cases j <;> rfl
  refine (Agrees.expectWord _).bind_token fun first s => Agrees.peek.bind_token fun after s' =>
    .ite (fun _ => ?_) fun _ => ?_
  · refine Agrees.skip.bind_any fun _ _ => ?_
    refine (Agrees.check (checksAlike_labelled j f (.at s'))).bind_any fun _ _ => ?_
    exact Agrees.endStatement.bind_any fun _ _ => .pure (Node.Alike.mk rfl)
  · refine (Agrees.check (checksAlike_plain j f (.at s))).bind_any fun _ _ => ?_
    exact Agrees.endStatement.bind_any fun _ _ => .pure (Node.Alike.mk rfl)

theorem agrees_labelledStatement (f : Frame) :
    (labelledStatement rules f).Agrees (labelledStatement rules' f) Node.Alike := by
  refine (Agrees.expectIn _).bind_token fun label s => ?_
  refine (Agrees.check (checksAlike_label f (.at s))).bind_any fun _ _ =>
    .ite (fun _ => .refuse rfl) fun _ => (Agrees.expectPunctuator _).bind_any fun _ _ => ?_
  exact (hr.statement _).bind fun _ _ h =>
    .pure (Node.Alike.mk (congrArg (Shape.labelledStatement label.text) h))

/-! ## Compound statements -/

theorem agrees_block (f : Frame) : (block rules f).Agrees (block rules' f) Node.Alike :=
  (Agrees.expectPunctuator _).bind_any fun _ _ => (agrees_statements hr f).bind fun _ _ h =>
    .pure (Node.Alike.mk (congrArg Shape.block h))

theorem agrees_ifStatement (f : Frame) :
    (ifStatement rules f).Agrees (ifStatement rules' f) Node.Alike := by
  refine (Agrees.expectWord _).bind_any fun _ _ => (hr.parenthesised f).bind fun _ _ htest => ?_
  refine (hr.statement f).bind fun _ _ hconsequent => (Agrees.tookWord _).bind_eq fun _ => ?_
  extract_lets rest rest'
  have hrest (alternate alternate' : Option Node) (h : OptionsAlike alternate alternate') :
      (rest alternate).Agrees (rest' alternate') Node.Alike :=
    .pure (Node.Alike.mk (by simp only [Shape.map, htest, hconsequent, h]))
  refine .ite (fun _ => ?_) fun _ => .bind_pure (hrest none none rfl)
  exact (hr.statement f).bind fun _ _ h => .bind_pure (hrest (some _) (some _) (congrArg some h))

theorem agrees_catchClause (f : Frame) :
    (catchClause rules f).Agrees (catchClause rules' f) OptionsAlike := by
  refine (Agrees.takeIf _).bind fun _ _ hfirst => ?_
  cases hfirst with
  | none => exact .pure rfl
  | some =>
    refine (Agrees.tookPunctuator _).bind_eq fun _ => ?_
    extract_lets rest rest'
    have hrest (pattern pattern' : Option Node) (h : OptionsAlike pattern pattern') :
        (rest pattern).Agrees (rest' pattern') OptionsAlike :=
      (agrees_block hr f).bind fun _ _ hbody =>
        .pure (congrArg some (Node.Alike.mk (by simp only [Shape.map, h, hbody])))
    refine .ite (fun _ => ?_) fun _ => .bind_pure (hrest none none rfl)
    exact (hr.pattern f _).bind fun _ _ h => (Agrees.expectPunctuator _).bind_any fun _ _ =>
      .bind_pure (hrest (some _) (some _) (congrArg some h))

theorem agrees_tryStatement (f : Frame) :
    (tryStatement rules f).Agrees (tryStatement rules' f) Node.Alike := by
  refine (Agrees.expectWord _).bind_token fun first s => ?_
  refine (agrees_block hr f).bind fun _ _ hbody => ?_
  refine (agrees_catchClause hr f).bind fun handler handler' hhandler => ?_
  refine (Agrees.tookWord _).bind_eq fun _ => ?_
  extract_lets rest rest'
  have hrest (finalizer finalizer' : Option Node) (h : OptionsAlike finalizer finalizer') :
      (rest finalizer).Agrees (rest' finalizer') Node.Alike := by
    have hlast : OptionsAlike (finalizer.or handler) (finalizer'.or handler') := by
      rw [OptionsAlike, Option.map_or, Option.map_or, h, hhandler]
    unfold rest rest'
    generalize finalizer.or handler = last at hlast ⊢
    generalize finalizer'.or handler' = last' at hlast ⊢
    cases last with
    | none =>
      cases last' with
      | none => exact .refuse rfl
      | some => cases hlast
    | some last =>
      cases last' with
      | none => cases hlast
      | some last' => exact .pure (Node.Alike.mk (by simp only [Shape.map, hbody, hhandler, h]))
  refine .ite (fun _ => ?_) fun _ => .bind_pure (hrest none none rfl)
  exact (agrees_block hr f).bind fun _ _ h => .bind_pure (hrest (some _) (some _) (congrArg some h))

theorem agrees_switchCase (f : Frame) :
    (switchCase rules f).Agrees (switchCase rules' f) Node.Alike := by
  refine Agrees.peek.bind_any fun _ _ => (Agrees.tookWord _).bind_eq fun _ => ?_
  extract_lets rest rest'
  have hrest (test test' : Option Node) (h : OptionsAlike test test') :
      (rest test).Agrees (rest' test') Node.Alike := by
    refine (Agrees.expectPunctuator _).bind_any fun _ _ => ?_
    refine (Agrees.collect (R := Node.Alike) ?_ _ _).bind fun _ _ hbody => .pure (Node.Alike.mk ?_)
    · refine Agrees.peek.bind_token fun t s => ?_
      dsimp only
      split
      case h_4 => exact (hr.statement f).bind fun _ _ h => .pure (.some h)
      all_goals exact .pure .none
    · simp only [Shape.map, h, ListsAlike.of_forall₂ hbody]
  refine .ite (fun _ => ?_) fun _ =>
    (Agrees.expectWord _).bind_any fun _ _ => .bind_pure (hrest none none rfl)
  exact (hr.whole f _).bind fun _ _ h => .bind_pure (hrest (some _) (some _) (congrArg some h))

theorem agrees_switchStatement (f : Frame) :
    (switchStatement rules f).Agrees (switchStatement rules' f) Node.Alike := by
  refine (Agrees.expectWord _).bind_any fun _ _ => (hr.parenthesised f).bind fun _ _ hsubject => ?_
  refine (Agrees.expectPunctuator _).bind_any fun _ _ => ?_
  refine (Agrees.collect (R := Node.Alike) ?_ _ _).bind fun _ _ hcases => ?_
  · refine (Agrees.atPunctuator _).bind_eq fun _ => .ite (fun _ => .pure .none) fun _ => ?_
    exact (agrees_switchCase hr _).bind fun _ _ h => .pure (.some h)
  · refine (Agrees.expectPunctuator _).bind_any fun _ _ => .pure (Node.Alike.mk ?_)
    simp only [Shape.map, hsubject, ListsAlike.of_forall₂ hcases]

theorem agrees_withStatement (f : Frame) :
    (withStatement rules f).Agrees (withStatement rules' f) Node.Alike := by
  refine (Agrees.expectWord _).bind_token fun first s => .ite (fun _ => .refuse rfl) fun _ => ?_
  refine (hr.parenthesised f).bind fun _ _ hobject => (hr.statement f).bind fun _ _ hbody => ?_
  exact .pure (Node.Alike.mk (congrArg₂ Shape.withStatement hobject hbody))

/-! ## All statements -/

theorem agrees_plainStatement (f : Frame) {t u : Token} (h : t.Alike u) :
    (plainStatement rules f t).Agrees (plainStatement rules' f u) Node.Alike := by
  obtain ⟨s⟩ := h
  unfold plainStatement
  dsimp only
  split
  case h_1 => exact agrees_block hr f
  case h_2 => exact agrees_emptyStatement
  case h_3 | h_4 => exact agrees_jumpStatement f _
  case h_5 => exact agrees_classDeclaration hr f _
  case h_6 => exact agrees_debuggerStatement
  case h_7 => exact agrees_doWhileLoop hr f
  case h_8 => exact agrees_exportStatement hr f
  case h_9 => exact agrees_forLoop hr f
  case h_10 => exact agrees_functionDeclaration hr f _
  case h_11 => exact agrees_ifStatement hr f
  case h_12 =>
    exact agrees_startsImportExpression.bind_eq fun _ =>
      .ite (fun _ => agrees_expressionStatement hr f) fun _ => agrees_importDeclaration f
  case h_13 => exact agrees_returnStatement hr f
  case h_14 => exact agrees_switchStatement hr f
  case h_15 => exact agrees_throwStatement hr f
  case h_16 => exact agrees_tryStatement hr f
  case h_17 => exact agrees_whileLoop hr f
  case h_18 => exact agrees_withStatement hr f
  case h_19 =>
    refine agrees_startsVariables.bind_eq fun _ =>
      .ite (fun _ => agrees_variableStatement hr f) fun _ => ?_
    exact agrees_startsAsyncFunction.bind_eq fun _ =>
      .ite (fun _ => agrees_functionDeclaration hr f _) fun _ => agrees_expressionStatement hr f

theorem agrees_statement (f : Frame) :
    (statement rules f).Agrees (statement rules' f) Node.Alike := by
  refine Agrees.peek.bind_token fun t s => ?_
  extract_lets rest rest'
  have hrest (isLabelled : Bool) : (rest isLabelled).Agrees (rest' isLabelled) Node.Alike :=
    .ite (fun _ => agrees_labelledStatement hr f) fun _ => agrees_plainStatement hr _ (.at s)
  refine .ite (fun _ => ?_) fun _ => .bind_pure (hrest false)
  exact Agrees.peekSecond.bind_token fun _ _ => .bind_pure (hrest _)

/-! ## Programs -/

omit hr in
/-- The constructs agree at any two levels of nesting. -/
theorem agree_rules (bound bound' depth depth' : Nat) :
    (Grammar.rules bound depth).Agree (Grammar.rules bound' depth') := by
  induction depth generalizing depth' with
  | zero =>
    exact ⟨fun _ _ => .exhausted_left, fun _ => .exhausted_left, fun _ _ => .exhausted_left,
      fun _ _ _ => .exhausted_left⟩
  | succ depth ih =>
    cases depth' with
    | zero =>
      exact ⟨fun _ _ => .exhausted_right, fun _ => .exhausted_right, fun _ _ => .exhausted_right,
        fun _ _ _ => .exhausted_right⟩
    | succ depth' =>
      exact ⟨agrees_expression (ih depth'), agrees_statement (ih depth'),
        agrees_pattern (ih depth'), agrees_construct (ih depth')⟩

end ScriptMin.Grammar
