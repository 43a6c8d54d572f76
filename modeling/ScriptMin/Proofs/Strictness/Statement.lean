import ScriptMin.Grammar.Statement
import ScriptMin.Proofs.Grammar.Program
import ScriptMin.Proofs.Strictness.Loop

/-!
# Statements are read as their frames say

The frame within a statement differs from that of the statement in its labels alone. No statement
is read as a directive. Each level of nesting is read as its frames say because the level below is,
and the frame of a program is strict if the program is.
-/

namespace ScriptMin.Grammar

open Parse Node

variable {rules : Rules} {strict : Bool}

/-! ## Names of modules -/

theorem binds_importedName (f : Frame) :
    (importedName f).Ensures (Binds .declaration f.strict) :=
  .bind_any fun _ => .bind (.check fun _ h => h) fun _ h => .pure (binds_bindingNode h)

theorem binds_importName (f : Frame) :
    (importName f).Ensures fun name => Binds .declaration f.strict name.asName := by
  refine .bind_any fun target => .bind_any fun _ => .ite (fun _ => ?_) fun _ => ?_
  · exact .bind (binds_importedName f) fun _ h => .pure h
  · refine .ite (fun _ => .unexpected) fun _ => ?_
    exact .bind (.check fun _ h => h) fun _ h => .pure (binds_bindingNode h)

theorem readAs_exportName : exportName.Ensures fun name => name.asName.ReadAs strict := by
  refine .bind_any fun target => .bind_any fun _ => ?_
  extract_lets rest
  have hrest (asName : Token) : (rest asName).Ensures fun name => name.asName.ReadAs strict :=
    .pure (readAs_bindingNode asName)
  exact .ite (fun _ => .bind_any hrest) fun _ => hrest target

/-- Names in braces are what each of them is. -/
theorem ensures_names {Q : Node → Prop} (bound : Nat) {name : Parse (ModuleName Node)}
    (h : name.Ensures fun name => Q name.asName) :
    (moduleNames bound name).Ensures fun names =>
      ∀ c ∈ (ModuleNames.listed names).children, Q c := by
  refine .bind_any fun _ => ?_
  refine .bind (.iterate (I := fun read => ∀ n ∈ read, Q n.asName)
    (Q := fun reversed => ∀ n ∈ reversed, Q n.asName)
    (fun read hread => ?_) bound nofun)
    fun reversed hreversed => .pure (by simpa [ModuleNames.children] using hreversed)
  refine .bind_any fun _ => .ite (fun _ => .pure hread) fun _ => .bind h fun name hname => ?_
  have hread := List.forall_mem_cons (p := fun n => Q (ModuleName.asName n)).2 ⟨hname, hread⟩
  exact .bind_any fun _ => .ite (fun _ => .pure hread) fun _ => .bind_any fun _ => .pure hread

theorem binds_importNames (f : Frame) :
    (importNames rules f).Ensures fun names =>
      ∀ c ∈ names.children, Binds .declaration f.strict c := by
  refine .bind_any fun _ => .ite (fun _ => .bind_any fun _ => ?_) fun _ => ?_
  · refine .bind (binds_importedName f) fun name hname => .pure ?_
    exact List.forall_mem_singleton.2 hname
  · exact .bind (ensures_names _ (binds_importName f)) fun _ h => .pure h

/-- The nodes of the names that an import binds. -/
def importedNodes (names : Option Node × Option (ModuleNames Node)) : List Node :=
  names.1.toList ++ names.2.toList.flatMap ModuleNames.children

theorem binds_importBindings (f : Frame) :
    (importBindings rules f).Ensures fun names =>
      ∀ c ∈ importedNodes names, Binds .declaration f.strict c := by
  refine .bind_any fun _ => .ite (fun _ => ?_) fun _ => ?_
  · refine .bind (binds_importedName f) fun name hname => ?_
    refine .bind_any fun _ => .ite (fun _ => ?_) fun _ => ?_
    · refine .bind (binds_importNames f) fun names hnames => .pure ?_
      simpa [importedNodes] using ⟨hname, hnames⟩
    · exact .pure (List.forall_mem_singleton.2 hname)
  · refine .bind (binds_importNames f) fun names hnames => .pure ?_
    simpa [importedNodes] using hnames

theorem readAs_importDeclaration (f : Frame) :
    (importDeclaration rules f).Ensures (ReadAsStatement f.strict) := by
  refine .bind_any fun start => .bind_any fun _ => .bind_any fun t => ?_
  extract_lets rest
  have hrest (names : Option Node × Option (ModuleNames Node))
      (h : ∀ c ∈ importedNodes names, Binds .declaration f.strict c) :
      (rest names).Ensures (ReadAsStatement f.strict) :=
    .bind_any fun source => .bind_any fun _ => .bind_any fun span => .pure
      ⟨.mk (fun n hn => (h n hn).names) (readAs_each.2 fun n hn => (h n hn).readAs) nofun, nofun⟩
  refine .ite (fun _ => hrest (none, none) nofun) fun _ => ?_
  exact .bind (binds_importBindings f) fun names h => .bind_any fun _ => hrest names h

/-- What an `export` is read as. -/
def ExportReadAs (strict : Bool) (shape : Shape Node) : Prop :=
  ∀ span, ReadAsStatement strict ⟨span, shape⟩

theorem readAs_exportNames : (exportNames rules).Ensures (ExportReadAs strict) := by
  refine .bind (ensures_names (Q := ReadAs strict) _ readAs_exportName) fun names hnames => ?_
  refine .bind_any fun _ => ?_
  extract_lets rest
  have hrest (source : Option String) : (rest source).Ensures (ExportReadAs strict) :=
    .bind_any fun _ => .pure fun span => .uniform rfl nofun hnames
  exact .ite (fun _ => .bind_any fun source => hrest (some source)) fun _ => hrest none

theorem readAs_exportAll : exportAll.Ensures (ExportReadAs strict) := by
  refine .bind_any fun _ => ?_
  extract_lets rest
  have hrest (asName : Option Node) (h : ∀ n ∈ asName, n.ReadAs strict) :
      (rest asName).Ensures (ExportReadAs strict) := by
    refine .bind_any fun _ => .bind_any fun source => .bind_any fun _ => .pure fun span => ?_
    exact .uniform rfl nofun fun n hn => h n (Option.mem_toList.1 hn)
  refine .ite (fun _ => .bind_any fun t => ?_) fun _ => hrest none nofun
  exact hrest (some (bindingNode t)) (by simpa using readAs_bindingNode t)

variable (hr : rules.Track)

include hr

/-! ## Exports -/

theorem readAs_exportDefault (f : Frame) :
    (exportDefault rules f).Ensures (ExportReadAs f.strict) := by
  have hdeclared (n : Node) (hn : ReadAsStatement f.strict n) :
      ExportReadAs f.strict (.exportDeclaration n true) :=
    fun _ => .uniform rfl nofun (List.forall_mem_singleton.2 hn.readAs)
  refine .bind_any fun t => ?_
  extract_lets rest
  have hrest (isFunction : Bool) : (rest isFunction).Ensures (ExportReadAs f.strict) := by
    refine .ite (fun _ => ?_) fun _ => .ite (fun _ => ?_) fun _ => ?_
    · exact .bind (readAs_functionDeclaration hr f _) fun n hn => .pure (hdeclared n hn)
    · exact .bind (readAs_classDeclaration hr f _) fun n hn => .pure (hdeclared n hn)
    · refine .bind (hr.value f _) fun value hvalue => ?_
      extract_lets exported
      have hexported (u : Unit) : (exported u).Ensures (ExportReadAs f.strict) :=
        .pure fun span => .uniform rfl nofun (List.forall_mem_singleton.2 hvalue)
      exact .ite (fun _ => .bind_any hexported) fun _ => hexported ()
  exact .ite (fun _ => hrest true) fun _ => .bind_any hrest

theorem readAs_exportDeclaration (f : Frame) (t : Token) :
    (exportDeclaration rules f t).Ensures (ExportReadAs f.strict) := by
  refine .bind (hr.statement f) fun declaration hdeclaration => ?_
  have hexported : ExportReadAs f.strict (.exportDeclaration declaration false) :=
    fun _ => .uniform rfl nofun (List.forall_mem_singleton.2 hdeclaration.readAs)
  split
  case h_1 | h_2 | h_3 => exact .pure hexported
  case h_4 => exact .unexpected

theorem readAs_exportStatement (f : Frame) :
    (exportStatement rules f).Ensures (ReadAsStatement f.strict) := by
  refine .bind_any fun start => .bind_any fun _ => .bind_any fun place => .bind_any fun t => ?_
  extract_lets rest
  have hrest (shape : Shape Node) (hshape : ExportReadAs f.strict shape) :
      (rest shape).Ensures (ReadAsStatement f.strict) :=
    .bind_any fun span => .pure (hshape span)
  split
  case h_1 => exact .bind_any fun _ => .bind readAs_exportNames hrest
  case h_2 => exact .bind readAs_exportAll hrest
  case h_3 => exact .bind (readAs_exportDefault hr f) hrest
  case h_4 =>
    refine .ite (fun _ => .bind_any fun _ => ?_) fun _ => .bind_unexpected
    exact .bind (readAs_exportDeclaration hr f t) hrest

/-! ## Simple statements -/

theorem readAs_statementValue (f : Frame) :
    (statementValue rules f).Ensures (ReadAs f.strict) := by
  refine .bind (hr.value f _) fun value hvalue => ?_
  extract_lets rest
  have hrest (u : Unit) : (rest u).Ensures (ReadAs f.strict) := .pure hvalue
  exact .ite (fun _ => .bind_any fun _ => hrest ()) fun _ => hrest ()

theorem readAs_expressionStatement (f : Frame) :
    (expressionStatement rules f).Ensures (ReadAsStatement f.strict) :=
  .bind (readAs_statementValue hr f) fun _ hvalue =>
    .pure (.uniform rfl nofun (List.forall_mem_singleton.2 hvalue))

theorem readAs_variableStatement (f : Frame) :
    (variableStatement rules f).Ensures (ReadAsStatement f.strict) :=
  .bind (readAs_variableDeclaration hr f _) fun _ hdeclaration =>
    .pure (.uniform rfl nofun (List.forall_mem_singleton.2 hdeclaration))

theorem readAs_returnStatement (f : Frame) :
    (returnStatement rules f).Ensures (ReadAsStatement f.strict) := by
  refine .bind_any fun first => .ite (fun _ => .refuse) fun _ => .bind_any fun after => ?_
  extract_lets rest
  have hrest (isBare : Bool) : (rest isBare).Ensures (ReadAsStatement f.strict) := by
    refine .ite (fun _ => .pure (.uniform rfl nofun nofun)) fun _ => ?_
    refine .bind (readAs_statementValue hr f) fun value hvalue => .pure ?_
    exact .uniform rfl nofun (List.forall_mem_singleton.2 hvalue)
  exact .ite (fun _ => hrest true) fun _ => .bind_any hrest

theorem readAs_throwStatement (f : Frame) :
    (throwStatement rules f).Ensures (ReadAsStatement f.strict) := by
  refine .bind_any fun first => .bind_any fun _ => .ite (fun _ => .refuse) fun _ => ?_
  refine .bind (readAs_statementValue hr f) fun value hvalue => .pure ?_
  exact .uniform rfl nofun (List.forall_mem_singleton.2 hvalue)

/-! ## Labels and jumps -/

omit hr in
theorem readAs_jumpStatement (f : Frame) (j : Jump) :
    (jumpStatement f j).Ensures (ReadAsStatement strict) := by
  have hjump (span : Source.Span) (label : Option String) :
      ReadAsStatement strict ⟨span, j.shape label⟩ := by
    cases j <;> exact .uniform rfl nofun nofun
  refine .bind_any fun first => .bind_any fun after => .ite (fun _ => ?_) fun _ => ?_
  · exact .bind_any fun _ => .bind_any fun _ => .bind_any fun _ => .pure (hjump _ _)
  · exact .bind_any fun _ => .bind_any fun _ => .pure (hjump _ _)

theorem readAs_labelledStatement (f : Frame) :
    (labelledStatement rules f).Ensures (ReadAsStatement f.strict) := by
  refine .bind_any fun label => .bind_any fun _ => .ite (fun _ => .refuse) fun _ => ?_
  refine .bind_any fun _ => .bind (hr.statement (f.labelled _)) fun statement hstatement => .pure ?_
  exact .uniform rfl nofun (List.forall_mem_singleton.2 hstatement.readAs)

/-! ## Compound statements -/

theorem readAs_block (f : Frame) : (block rules f).Ensures (ReadAsStatement f.strict) := by
  refine .bind_any fun first => .bind (readAs_statements hr f) ?_
  rintro ⟨body, close⟩ hbody
  exact .pure (.uniform rfl nofun fun n hn => (hbody n hn).readAs)

theorem readAs_ifStatement (f : Frame) :
    (ifStatement rules f).Ensures (ReadAsStatement f.strict) := by
  refine .bind_any fun first => .bind (hr.parenthesised f) fun test htest => ?_
  refine .bind (hr.statement f) fun consequent hconsequent => .bind_any fun hasElse => ?_
  extract_lets rest
  have hrest (alternate : Option Node) (halternate : ∀ n ∈ alternate, n.ReadAs f.strict) :
      (rest alternate).Ensures (ReadAsStatement f.strict) := by
    refine .pure (.uniform rfl (by simp) ?_)
    simpa [Shape.children] using ⟨htest, hconsequent.readAs, halternate⟩
  refine .ite (fun _ => ?_) fun _ => hrest none (by simp)
  exact .bind (hr.statement f) fun n hn => hrest (some n) (by simpa using hn.readAs)

theorem readAs_catchClause (f : Frame) :
    (catchClause rules f).Ensures fun clause => ∀ n ∈ clause, n.ReadAs f.strict := by
  refine .bind_any fun first => ?_
  cases first with
  | none => exact .pure nofun
  | some first =>
    refine .bind_any fun hasPattern => ?_
    extract_lets rest
    have hrest (pattern : Option Node)
        (hpattern : ∀ n ∈ pattern, Binds .declaration f.strict n) :
        (rest pattern).Ensures fun clause => ∀ n ∈ clause, n.ReadAs f.strict := by
      refine .bind (readAs_block hr f) fun body hbody => .pure ?_
      rintro _ ⟨⟩
      refine .mk (fun n hn => (hpattern n hn).names) (readAs_each.2 ?_) nofun
      refine List.forall_mem_append.2 ⟨fun n hn => ?_, List.forall_mem_singleton.2 hbody.readAs⟩
      exact (hpattern n (Option.mem_toList.1 hn)).readAs
    refine .ite (fun _ => ?_) fun _ => hrest none nofun
    refine .bind (hr.pattern f _) fun n hn => .bind_any fun _ => hrest (some n) ?_
    simpa using hn

theorem readAs_tryStatement (f : Frame) :
    (tryStatement rules f).Ensures (ReadAsStatement f.strict) := by
  refine .bind_any fun first => .bind (readAs_block hr f) fun body hbody => ?_
  refine .bind (readAs_catchClause hr f) fun handler hhandler => .bind_any fun hasFinalizer => ?_
  extract_lets rest
  have hrest (finalizer : Option Node) (hfinalizer : ∀ n ∈ finalizer, n.ReadAs f.strict) :
      (rest finalizer).Ensures (ReadAsStatement f.strict) := by
    dsimp only [rest]
    split
    · exact .refuse
    · refine .pure (.uniform rfl (by simp) ?_)
      simpa [Shape.children, or_imp, forall_and] using ⟨hbody.readAs, hhandler, hfinalizer⟩
  refine .ite (fun _ => ?_) fun _ => hrest none (by simp)
  exact .bind (readAs_block hr f) fun n hn => hrest (some n) (by simpa using hn.readAs)

theorem readAs_switchCase (f : Frame) : (switchCase rules f).Ensures (ReadAs f.strict) := by
  refine .bind_any fun first => .bind_any fun hasTest => ?_
  extract_lets rest
  have hrest (test : Option Node) (htest : ∀ n ∈ test, n.ReadAs f.strict) :
      (rest test).Ensures (ReadAs f.strict) := by
    refine .bind_any fun colon => ?_
    refine .bind (.collect (Q := ReadAs f.strict) (.bind_any fun t => ?_) rules.bound)
      fun body hbody => .pure (.uniform rfl ?_)
    · split
      case h_1 | h_2 | h_3 => exact .pure nofun
      case h_4 => exact .bind (hr.statement f) fun n hn => .pure (by simpa using hn.readAs)
    · simpa [Shape.children, or_imp, forall_and] using ⟨htest, hbody⟩
  refine .ite (fun _ => ?_) fun _ => .bind_any fun _ => hrest none nofun
  exact .bind (hr.whole f _) fun n hn => hrest (some n) (by simpa using hn)

theorem readAs_switchStatement (f : Frame) :
    (switchStatement rules f).Ensures (ReadAsStatement f.strict) := by
  refine .bind_any fun first => .bind (hr.parenthesised f) fun subject hsubject => ?_
  refine .bind_any fun _ => ?_
  refine .bind (.collect (Q := ReadAs f.strict) (.bind_any fun _ => ?_) rules.bound)
    fun cases hcases => .bind_any fun _ => .pure (.uniform rfl nofun ?_)
  · refine .ite (fun _ => .pure nofun) fun _ => ?_
    refine .bind (readAs_switchCase hr f.switchBody) fun n hn => .pure ?_
    rintro _ ⟨⟩
    exact hn
  · exact List.forall_mem_cons.2 ⟨hsubject, hcases⟩

theorem readAs_withStatement (f : Frame) :
    (withStatement rules f).Ensures (ReadAsStatement f.strict) := by
  refine .bind_any fun first => .ite (fun _ => .refuse) fun _ => ?_
  refine .bind (hr.parenthesised f) fun object hobject => ?_
  refine .bind (hr.statement f) fun body hbody => .pure (.uniform rfl nofun ?_)
  exact List.forall_mem_cons.2 ⟨hobject, List.forall_mem_singleton.2 hbody.readAs⟩

/-! ## All statements -/

theorem readAs_plainStatement (f : Frame) (t : Token) :
    (plainStatement rules f t).Ensures (ReadAsStatement f.strict) := by
  unfold plainStatement
  split
  case h_1 => exact readAs_block hr f
  case h_2 => exact .bind_any fun t => .pure (.uniform rfl nofun nofun)
  case h_3 | h_4 => exact readAs_jumpStatement f _
  case h_5 => exact readAs_classDeclaration hr f _
  case h_6 => exact .bind_any fun t => .bind_any fun _ => .pure (.uniform rfl nofun nofun)
  case h_7 => exact readAs_doWhileLoop hr f
  case h_8 => exact readAs_exportStatement hr f
  case h_9 => exact readAs_forLoop hr f
  case h_10 => exact readAs_functionDeclaration hr f _
  case h_11 => exact readAs_ifStatement hr f
  case h_12 =>
    refine .bind_any fun _ => .ite (fun _ => readAs_expressionStatement hr f) fun _ => ?_
    exact readAs_importDeclaration f
  case h_13 => exact readAs_returnStatement hr f
  case h_14 => exact readAs_switchStatement hr f
  case h_15 => exact readAs_throwStatement hr f
  case h_16 => exact readAs_tryStatement hr f
  case h_17 => exact readAs_whileLoop hr f
  case h_18 => exact readAs_withStatement hr f
  case h_19 =>
    refine .bind_any fun _ => .ite (fun _ => readAs_variableStatement hr f) fun _ => ?_
    refine .bind_any fun _ => .ite (fun _ => ?_) fun _ => readAs_expressionStatement hr f
    exact readAs_functionDeclaration hr f _

theorem readAs_statement (f : Frame) :
    (statement rules f).Ensures (ReadAsStatement f.strict) := by
  refine .bind_any fun t => ?_
  extract_lets rest
  have hrest (isLabelled : Bool) : (rest isLabelled).Ensures (ReadAsStatement f.strict) :=
    .ite (fun _ => readAs_labelledStatement hr f) fun _ =>
      readAs_plainStatement hr (f.statement (startsLoop t)) t
  exact .ite (fun _ => .bind_any fun _ => hrest _) fun _ => hrest false

end ScriptMin.Grammar

namespace ScriptMin

open Grammar Parse Node

namespace Grammar

theorem track_rules (bound depth : Nat) : (rules bound depth).Track := by
  induction depth with
  | zero =>
    exact ⟨⟨bound, 0, rfl⟩, fun _ _ => .exhausted, fun _ => .exhausted, fun _ _ => .exhausted,
      fun _ _ => .exhausted⟩
  | succ depth ih =>
    have hsound := (sound_rules bound (depth + 1)).expression
    exact ⟨⟨bound, depth + 1, rfl⟩, fun f e => (readAs_expression ih f e).and (hsound f e),
      readAs_statement ih, binds_pattern ih, readAs_construct ih⟩

end Grammar

namespace Program

theorem readAs_read (mode : Mode) (stop : Nat) {rules : Rules} (hr : rules.Track) :
    (read mode stop rules).Ensures fun p => p.root.ReadAs p.strict := by
  refine .bind (prologue_tokens _ _) ?_
  rintro ⟨directives, strict⟩ ⟨tokens, -, rfl, -⟩
  refine .bind (.collect (Q := ReadAs strict) (.bind_any fun _ => ?_) rules.bound)
    fun statements hstatements => .pure (.uniform rfl ?_)
  · refine .ite (fun _ => .pure nofun) fun _ => ?_
    refine .bind (hr.statement (.topLevel strict)) fun n hn => .pure ?_
    rintro _ ⟨⟩
    exact hn.readAs
  · refine List.forall_mem_append.2 ⟨?_, hstatements⟩
    exact List.forall_mem_map.2 fun t _ => .uniform rfl nofun

/-- A program is read as it says, and all names in it have passed their checks. -/
theorem readAs_of_parse {mode : Mode} {source : List Char} {p : Program}
    (h : parse mode source = .ok p) : p.root.ReadAs p.strict := by
  have hr : (rulesFor source.length).Track := track_rules _ _
  have hreadAs := ensures_of_readSource h (readAs_read mode _ hr)
  exact hreadAs

end Program

end ScriptMin
