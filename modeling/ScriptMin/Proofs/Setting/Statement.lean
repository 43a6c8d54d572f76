import ScriptMin.Grammar.Statement
import ScriptMin.Proofs.Setting.Loop

/-!
# Statements are legal where they stand

Labels and jumps are checked against the labels and loops of the frame, which are those of the
setting. A statement that is no label is read with the labels before it used up: a loop turns them
into labels of a loop for its body, and any other statement drops them.
-/

namespace ScriptMin.Grammar

open Parse Node

variable {rules : Rules} {f : Frame} {s : Setting}

/-- A statement is read in the frame of its inside. -/
theorem Hosts.admits (h : Hosts s.inner f) : Admits s f :=
  ⟨h.generator, h.isAsync, h.allowsSuper, h.inFunction⟩

/-! ## Names of modules -/

theorem stands_importedName (f : Frame) : (importedName f).Ensures (Legal s) :=
  .bind_any fun t => .bind_any fun _ => .pure (legal_bindingNode t)

theorem stands_importName (f : Frame) : (importName f).Ensures fun name => name.asName.Legal s := by
  refine .bind_any fun target => .bind_any fun _ => .ite (fun _ => ?_) fun _ => ?_
  · exact .bind (stands_importedName f) fun _ h => .pure h
  · refine .ite (fun _ => .unexpected) fun _ => .bind_any fun _ => .pure ?_
    exact legal_bindingNode target

theorem stands_exportName : exportName.Ensures fun name => name.asName.Legal s := by
  refine .bind_any fun target => .bind_any fun _ => ?_
  extract_lets rest
  have hrest (asName : Token) : (rest asName).Ensures fun name => name.asName.Legal s :=
    .pure (legal_bindingNode asName)
  exact .ite (fun _ => .bind_any hrest) fun _ => hrest target

theorem stands_moduleNames (bound : Nat) {name : Parse (ModuleName Node)}
    (h : name.Ensures fun name => name.asName.Legal s) :
    (moduleNames bound name).Ensures fun names =>
      ∀ c ∈ (ModuleNames.listed names).children, c.Legal s := by
  refine .bind_any fun _ => ?_
  refine .bind (.iterate (I := fun read => ∀ n ∈ read, n.asName.Legal s)
    (Q := fun reversed => ∀ n ∈ reversed, n.asName.Legal s)
    (fun read hread => ?_) bound nofun)
    fun reversed hreversed => .pure (by simpa [ModuleNames.children] using hreversed)
  refine .bind_any fun _ => .ite (fun _ => .pure hread) fun _ => .bind h fun name hname => ?_
  have hread := List.forall_mem_cons (p := fun n => Legal s (ModuleName.asName n)).2 ⟨hname, hread⟩
  exact .bind_any fun _ => .ite (fun _ => .pure hread) fun _ => .bind_any fun _ => .pure hread

theorem stands_importNames (f : Frame) :
    (importNames rules f).Ensures fun names => ∀ c ∈ names.children, c.Legal s := by
  refine .bind_any fun _ => .ite (fun _ => .bind_any fun _ => ?_) fun _ => ?_
  · refine .bind (stands_importedName (s := s) f) fun name hname => .pure ?_
    exact List.forall_mem_singleton.2 hname
  · exact .bind (stands_moduleNames _ (stands_importName f)) fun _ h => .pure h

theorem stands_importBindings (f : Frame) :
    (importBindings rules f).Ensures fun (defaultName, names) =>
      (∀ n ∈ defaultName, n.Legal s) ∧ ∀ n ∈ names, ∀ c ∈ ModuleNames.children n, c.Legal s := by
  refine .bind_any fun _ => .ite (fun _ => ?_) fun _ => ?_
  · refine .bind (stands_importedName (s := s) f) fun name hname => ?_
    refine .bind_any fun _ => .ite (fun _ => ?_) fun _ => ?_
    · refine .bind (stands_importNames (s := s) f) fun names hnames => .pure ?_
      exact ⟨by simpa using hname, by simpa using hnames⟩
    · exact .pure ⟨by simpa using hname, nofun⟩
  · exact .bind (stands_importNames f) fun names hnames => .pure ⟨nofun, by simpa using hnames⟩

theorem stands_importDeclaration (f : Frame) : (importDeclaration rules f).Ensures (Legal s) := by
  refine .bind_any fun start => .bind_any fun _ => .bind_any fun t => ?_
  extract_lets rest
  have hrest (names : Option Node × Option (ModuleNames Node))
      (h : (∀ n ∈ names.1, n.Legal s.inner) ∧
        ∀ n ∈ names.2, ∀ c ∈ ModuleNames.children n, c.Legal s.inner) :
      (rest names).Ensures (Legal s) := by
    refine .bind_any fun source => .bind_any fun _ => .bind_any fun span => .pure ?_
    refine legal_plain rfl ⟨trivial, trivial⟩ (List.forall_mem_append.2 ⟨?_, ?_⟩)
    · exact fun n hn => h.1 n (Option.mem_toList.1 hn)
    · exact List.forall_mem_flatMap.2 fun n hn => h.2 n (Option.mem_toList.1 hn)
  refine .ite (fun _ => hrest (none, none) ⟨nofun, nofun⟩) fun _ => ?_
  exact .bind (stands_importBindings f) fun names h => .bind_any fun _ => hrest names h

theorem stands_exportNames :
    (exportNames rules).Ensures fun shape => ∀ span, Legal s ⟨span, shape⟩ := by
  refine .bind (stands_moduleNames (s := s.inner) _ stands_exportName) fun names hnames => ?_
  refine .bind_any fun _ => ?_
  extract_lets rest
  have hrest (source : Option String) :
      (rest source).Ensures fun shape => ∀ span, Legal s ⟨span, shape⟩ :=
    .bind_any fun _ => .pure fun span => legal_plain rfl ⟨trivial, trivial⟩ hnames
  exact .ite (fun _ => .bind_any fun source => hrest (some source)) fun _ => hrest none

theorem stands_exportAll : exportAll.Ensures fun shape => ∀ span, Legal s ⟨span, shape⟩ := by
  refine .bind_any fun _ => ?_
  extract_lets rest
  have hrest (asName : Option Node) (h : ∀ n ∈ asName, n.Legal s.inner) :
      (rest asName).Ensures fun shape => ∀ span, Legal s ⟨span, shape⟩ := by
    refine .bind_any fun _ => .bind_any fun source => .bind_any fun _ => .pure fun span => ?_
    exact legal_plain rfl ⟨trivial, trivial⟩ fun n hn => h n (Option.mem_toList.1 hn)
  refine .ite (fun _ => .bind_any fun t => ?_) fun _ => hrest none nofun
  exact hrest (some (bindingNode t)) (by simpa using legal_bindingNode t)

variable (hr : rules.Stands) (h : Hosts s.inner f)

include hr h

/-! ## Exports -/

theorem stands_exportDefault :
    (exportDefault rules f).Ensures fun shape => ∀ span, Legal s ⟨span, shape⟩ := by
  have hdeclared (n : Node) (hn : n.Legal s.inner) (span : Source.Span) :
      Legal s ⟨span, .exportDeclaration n true⟩ :=
    legal_plain rfl ⟨trivial, trivial⟩ (List.forall_mem_singleton.2 hn)
  refine .bind_any fun t => ?_
  extract_lets rest
  have hrest (isFunction : Bool) :
      (rest isFunction).Ensures fun shape => ∀ span, Legal s ⟨span, shape⟩ := by
    refine .ite (fun _ => ?_) fun _ => .ite (fun _ => ?_) fun _ => ?_
    · exact .bind (stands_functionDeclaration hr f _) fun n hn => .pure (hdeclared n hn)
    · exact .bind (stands_classDeclaration hr h.toAdmits _) fun n hn => .pure (hdeclared n hn)
    · refine .bind (hr.expression _ h.admits) fun value hvalue => ?_
      extract_lets exported
      have hexported (u : Unit) :
          (exported u).Ensures fun shape => ∀ span, Legal s ⟨span, shape⟩ :=
        .pure fun span =>
          legal_plain rfl ⟨trivial, trivial⟩ (List.forall_mem_singleton.2 hvalue)
      exact .ite (fun _ => .bind_any hexported) fun _ => hexported ()
  exact .ite (fun _ => hrest true) fun _ => .bind_any hrest

theorem stands_exportDeclaration (t : Token) :
    (exportDeclaration rules f t).Ensures fun shape => ∀ span, Legal s ⟨span, shape⟩ := by
  refine .bind (hr.statement h) fun declaration hdeclaration => ?_
  have hexported (span : Source.Span) : Legal s ⟨span, .exportDeclaration declaration false⟩ :=
    legal_plain rfl ⟨trivial, trivial⟩ (List.forall_mem_singleton.2 hdeclaration)
  split
  case h_1 | h_2 | h_3 => exact .pure hexported
  case h_4 => exact .unexpected

theorem stands_exportStatement : (exportStatement rules f).Ensures (Legal s) := by
  refine .bind_any fun start => .bind_any fun _ => .bind_any fun place => .bind_any fun t => ?_
  extract_lets rest
  have hrest (shape : Shape Node) (hshape : ∀ span, Legal s ⟨span, shape⟩) :
      (rest shape).Ensures (Legal s) :=
    .bind_any fun span => .pure (hshape span)
  split
  case h_1 => exact .bind_any fun _ => .bind stands_exportNames hrest
  case h_2 => exact .bind stands_exportAll hrest
  case h_3 => exact .bind (stands_exportDefault hr h) hrest
  case h_4 =>
    refine .ite (fun _ => .bind_any fun _ => ?_) fun _ => .bind_unexpected
    exact .bind (stands_exportDeclaration hr h t) hrest

/-! ## Simple statements -/

theorem stands_statementValue : (statementValue rules f).Ensures (Legal s.inner) := by
  refine .bind (hr.expression _ h.admits) fun value hvalue => ?_
  extract_lets rest
  have hrest (u : Unit) : (rest u).Ensures (Legal s.inner) := .pure hvalue
  exact .ite (fun _ => .bind_any fun _ => hrest ()) fun _ => hrest ()

theorem stands_expressionStatement : (expressionStatement rules f).Ensures (Legal s) :=
  .bind (stands_statementValue hr h) fun _ hvalue =>
    .pure (legal_plain rfl ⟨trivial, trivial⟩ (List.forall_mem_singleton.2 hvalue))

theorem stands_variableStatement : (variableStatement rules f).Ensures (Legal s) :=
  .bind (stands_variableDeclaration hr h.admits _) fun _ hdeclaration =>
    .pure (legal_plain rfl ⟨trivial, trivial⟩ (List.forall_mem_singleton.2 hdeclaration))

theorem stands_returnStatement : (returnStatement rules f).Ensures (Legal s) := by
  refine .bind_any fun first => .ite (fun _ => .refuse) fun hfunction => .bind_any fun after => ?_
  have hallows (value : Option Node) : s.Allows (.returnStatement value) :=
    ⟨trivial, h.returns (by simpa using hfunction)⟩
  extract_lets rest
  have hrest (isBare : Bool) : (rest isBare).Ensures (Legal s) := by
    refine .ite (fun _ => .pure (legal_plain rfl (hallows _) nofun)) fun _ => ?_
    refine .bind (stands_statementValue hr h) fun value hvalue => .pure ?_
    exact legal_plain rfl (hallows _) (List.forall_mem_singleton.2 hvalue)
  exact .ite (fun _ => hrest true) fun _ => .bind_any hrest

theorem stands_throwStatement : (throwStatement rules f).Ensures (Legal s) := by
  refine .bind_any fun first => .bind_any fun _ => .ite (fun _ => .refuse) fun _ => ?_
  refine .bind (stands_statementValue hr h) fun value hvalue => .pure ?_
  exact legal_plain rfl ⟨trivial, trivial⟩ (List.forall_mem_singleton.2 hvalue)

/-! ## Labels and jumps -/

omit hr in
/-- A jump without a label is checked against the loops and `switch` statements around it. -/
theorem allows_of_checkPlain {j : Jump} {t : Token} (hj : j.checkPlain f t = .ok ()) :
    s.Allows (j.shape none : Shape Node) := by
  cases j with
  | leave =>
    simp only [Jump.checkPlain] at hj
    split at hj
    case isTrue hin => exact ⟨(Bool.or_eq_true_iff.1 hin).imp h.inLoop h.inSwitch, trivial⟩
    case isFalse => cases hj
  | again =>
    simp only [Jump.checkPlain] at hj
    split at hj
    case isTrue hin => exact ⟨h.inLoop hin, trivial⟩
    case isFalse => cases hj

omit hr in
/-- A jump with a label is checked against the labels around it. -/
theorem allows_of_checkLabelled {j : Jump} {t : Token} (hj : j.checkLabelled f t = .ok ()) :
    s.Allows (j.shape (some t.text) : Shape Node) := by
  obtain ⟨-, -, hj⟩ := bind_eq_ok.1 hj
  split at hj
  case h_1 => cases hj
  case h_2 l hl =>
    obtain ⟨hmem, hname, hlabels⟩ := h.mem_labels hl
    cases j with
    | leave => exact ⟨hlabels, trivial⟩
    | again =>
      cases hloop : l.isLoop with
      | true => exact ⟨hname ▸ h.loopLabels l hmem hloop, trivial⟩
      | false => simp [hloop] at hj

omit hr in
theorem stands_jumpStatement (j : Jump) : (jumpStatement f j).Ensures (Legal s) := by
  have hjump (span : Source.Span) (label : Option String)
      (hallows : s.Allows (j.shape label : Shape Node)) : Legal s ⟨span, j.shape label⟩ := by
    cases j <;> exact legal_plain rfl hallows nofun
  refine .bind_any fun first => .bind_any fun after => .ite (fun _ => ?_) fun _ => ?_
  · refine .bind_any fun _ => ?_
    refine .bind (.check fun _ hj => allows_of_checkLabelled h hj) fun _ hallows => ?_
    exact .bind_any fun _ => .pure (hjump _ _ hallows)
  · refine .bind (.check fun _ hj => allows_of_checkPlain h hj) fun _ hallows => ?_
    exact .bind_any fun _ => .pure (hjump _ _ hallows)

omit h in
/-- The statement behind a label may use it, and a label of its name is refused there. -/
theorem stands_labelledStatement (h : Hosts s f) :
    (labelledStatement rules f).Ensures (Legal s) := by
  refine .bind_any fun label => .bind_any fun _ => .ite (fun _ => .refuse) fun hfound => ?_
  refine .bind_any fun _ => .bind (hr.statement (h.labelled _)) fun statement hstatement => ?_
  have hnew : label.text ∉ s.labels := h.not_mem_labels (by simpa using hfound)
  exact .pure (legal_mk ⟨hnew, trivial⟩ (settled_cons.2 ⟨hstatement, settled_nil⟩))

/-! ## Compound statements -/

theorem stands_block : (block rules f).Ensures (Legal s) := by
  refine .bind_any fun first => .bind (stands_statements hr h) ?_
  rintro ⟨body, close⟩ hbody
  exact .pure (legal_plain rfl ⟨trivial, trivial⟩ hbody)

theorem stands_ifStatement : (ifStatement rules f).Ensures (Legal s) := by
  refine .bind_any fun first => .bind (hr.parenthesised h.admits) fun test htest => ?_
  refine .bind (hr.statement h) fun consequent hconsequent => .bind_any fun hasElse => ?_
  extract_lets rest
  have hrest (alternate : Option Node) (halternate : ∀ n ∈ alternate, n.Legal s.inner) :
      (rest alternate).Ensures (Legal s) := by
    refine .pure (legal_plain rfl ⟨trivial, trivial⟩ ?_)
    simpa [Shape.children] using ⟨htest, hconsequent, halternate⟩
  refine .ite (fun _ => ?_) fun _ => hrest none (by simp)
  exact .bind (hr.statement h) fun n hn => hrest (some n) (by simpa using hn)

theorem stands_catchClause :
    (catchClause rules f).Ensures fun clause => ∀ n ∈ clause, n.Legal s.inner := by
  refine .bind_any fun first => ?_
  cases first with
  | none => exact .pure nofun
  | some first =>
    refine .bind_any fun hasPattern => ?_
    extract_lets rest
    have hrest (pattern : Option Node) (hpattern : ∀ n ∈ pattern, n.Legal s.inner) :
        (rest pattern).Ensures fun clause => ∀ n ∈ clause, n.Legal s.inner := by
      refine .bind (stands_block (s := s.inner) hr h) fun body hbody => .pure ?_
      have hclause (span : Source.Span) : Legal s.inner ⟨span, .catchClause pattern body⟩ := by
        refine legal_plain rfl ⟨trivial, trivial⟩ ?_
        simpa [Shape.children, or_imp, forall_and] using ⟨hpattern, hbody⟩
      simpa using hclause _
    refine .ite (fun _ => ?_) fun _ => hrest none nofun
    refine .bind (hr.pattern _ h.admits) fun n hn => .bind_any fun _ => hrest (some n) ?_
    simpa using hn

theorem stands_tryStatement : (tryStatement rules f).Ensures (Legal s) := by
  refine .bind_any fun first => .bind (stands_block (s := s.inner) hr h) fun body hbody => ?_
  refine .bind (stands_catchClause hr h) fun handler hhandler => .bind_any fun hasFinalizer => ?_
  extract_lets rest
  have hrest (finalizer : Option Node) (hfinalizer : ∀ n ∈ finalizer, n.Legal s.inner) :
      (rest finalizer).Ensures (Legal s) := by
    dsimp only [rest]
    split
    · exact .refuse
    · refine .pure (legal_plain rfl ⟨trivial, trivial⟩ ?_)
      simpa [Shape.children, or_imp, forall_and] using ⟨hbody, hhandler, hfinalizer⟩
  refine .ite (fun _ => ?_) fun _ => hrest none (by simp)
  exact .bind (stands_block (s := s.inner) hr h) fun n hn => hrest (some n) (by simpa using hn)

theorem stands_switchCase : (switchCase rules f).Ensures (Legal s) := by
  refine .bind_any fun first => .bind_any fun hasTest => ?_
  extract_lets rest
  have hrest (test : Option Node) (htest : ∀ n ∈ test, n.Legal s.inner) :
      (rest test).Ensures (Legal s) := by
    refine .bind_any fun colon => ?_
    refine .bind (.collect (Q := Legal s.inner) (.bind_any fun t => ?_) rules.bound)
      fun body hbody => .pure (legal_plain rfl ⟨trivial, trivial⟩ ?_)
    · split
      case h_1 | h_2 | h_3 => exact .pure nofun
      case h_4 => exact .bind (hr.statement h) fun n hn => .pure (by simpa using hn)
    · simpa [Shape.children, or_imp, forall_and] using ⟨htest, hbody⟩
  refine .ite (fun _ => ?_) fun _ => .bind_any fun _ => hrest none nofun
  exact .bind (hr.whole h.admits _) fun n hn => hrest (some n) (by simpa using hn)

theorem stands_switchStatement : (switchStatement rules f).Ensures (Legal s) := by
  refine .bind_any fun first => .bind (hr.parenthesised h.admits) fun subject hsubject => ?_
  refine .bind_any fun _ => ?_
  refine .bind (.collect (Q := Legal s.switchBody) (.bind_any fun _ => ?_) rules.bound)
    fun cases hcases => .bind_any fun _ => .pure (legal_mk ⟨trivial, trivial⟩ ?_)
  · refine .ite (fun _ => .pure nofun) fun _ => ?_
    refine .bind (stands_switchCase (s := s.switchBody) hr h.switchBody) fun n hn => .pure ?_
    simpa using hn
  · exact settled_cons.2 ⟨hsubject, settled_each.2 hcases⟩

theorem stands_withStatement : (withStatement rules f).Ensures (Legal s) := by
  refine .bind_any fun first => .ite (fun _ => .refuse) fun _ => ?_
  refine .bind (hr.parenthesised h.admits) fun object hobject => ?_
  refine .bind (hr.statement h) fun body hbody => .pure (legal_plain rfl ⟨trivial, trivial⟩ ?_)
  simpa [Shape.children] using ⟨hobject, hbody⟩

/-! ## All statements -/

omit h in
/-- A statement that is no label. The frame is that of the inside of the statement, or of the body
of the loop that it is. -/
theorem stands_plainStatement (t : Token) (hloop : startsLoop t → Hosts s.loopBody f.loopBody)
    (hadmits : Admits s f) (hplain : startsLoop t = false → Hosts s.inner f) :
    (plainStatement rules f t).Ensures (Legal s) := by
  unfold plainStatement
  split
  case h_7 hkind =>
    exact stands_doWhileLoop hr hadmits (hloop (by simp [startsLoop, hkind]))
  case h_9 hkind => exact stands_forLoop hr hadmits (hloop (by simp [startsLoop, hkind]))
  case h_17 hkind => exact stands_whileLoop hr hadmits (hloop (by simp [startsLoop, hkind]))
  case h_2 => exact .bind_any fun t => .pure (legal_plain rfl ⟨trivial, trivial⟩ nofun)
  case h_6 =>
    exact .bind_any fun t => .bind_any fun _ => .pure (legal_plain rfl ⟨trivial, trivial⟩ nofun)
  all_goals have h : Hosts s.inner f := hplain (by simp_all [startsLoop])
  case h_1 => exact stands_block hr h
  case h_3 | h_4 => exact stands_jumpStatement h _
  case h_5 => exact stands_classDeclaration hr hadmits _
  case h_8 => exact stands_exportStatement hr h
  case h_10 => exact stands_functionDeclaration hr f _
  case h_11 => exact stands_ifStatement hr h
  case h_12 =>
    refine .bind_any fun _ => .ite (fun _ => ?_) fun _ => ?_
    · exact stands_expressionStatement hr h
    · exact stands_importDeclaration f
  case h_13 => exact stands_returnStatement hr h
  case h_14 => exact stands_switchStatement hr h
  case h_15 => exact stands_throwStatement hr h
  case h_16 => exact stands_tryStatement hr h
  case h_18 => exact stands_withStatement hr h
  case h_19 =>
    refine .bind_any fun _ => .ite (fun _ => stands_variableStatement hr h) fun _ => ?_
    refine .bind_any fun _ => .ite (fun _ => ?_) fun _ => stands_expressionStatement hr h
    exact stands_functionDeclaration hr f _

omit h in
theorem stands_statement (h : Hosts s f) : (statement rules f).Ensures (Legal s) := by
  refine .bind_any fun t => ?_
  extract_lets rest
  have hrest (isLabelled : Bool) : (rest isLabelled).Ensures (Legal s) := by
    refine .ite (fun _ => stands_labelledStatement hr h) fun _ => ?_
    refine stands_plainStatement hr t (fun hloop => ?_) (h.toAdmits.statement _) fun hplain => ?_
    · rw [hloop]
      exact h.loopBody
    · rw [hplain]
      exact h.statement
  exact .ite (fun _ => .bind_any fun _ => hrest _) fun _ => hrest false

end ScriptMin.Grammar
