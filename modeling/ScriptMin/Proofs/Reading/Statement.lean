import ScriptMin.Grammar.Statement
import ScriptMin.Proofs.Reading.Expression
import ScriptMin.Proofs.Reading.Loop

/-!
# What statements read

Imports, exports and all other statements end, and their nodes nest. An expression that is a
statement starts where the statement does, so it is the one construct that is read without a token
in front of it.
-/

namespace ScriptMin.Grammar

open Source Parse Reader

variable {source : List Char} {limit bound : Nat} {r r' : Reader}

/-! ## Imports and exports -/

theorem runs_moduleSource (h : r.Good source limit) :
    moduleSource.Runs r fun _ => Spans source limit r.cursor [] :=
  bind_expect h nofun fun _ _ ht => .bind_require fun _ => .pure (ht.spans h.weaken)

theorem runs_importedName (f : Frame) (h : r.Good source limit) :
    (importedName f).Runs r fun n => Spans source limit r.cursor [n] :=
  bind_expectIn h rfl fun t _ _ ht => .bind_check fun _ _ =>
    .pure (ht.alone (.bindingName t.text) h.weaken rfl nofun).toSpans

theorem runs_importName (f : Frame) (h : r.Good source limit) :
    (importName f).Runs r fun n => Reads source limit r.cursor [n.asName] := by
  refine bind_expectIn h rfl fun target r₁ _ ht => ?_
  have h₁ := ht.reads h.weaken
  refine if_tookWord h₁.good (fun _ r₂ has => ?_) fun _ r₂ hs =>
    .ite (fun _ => .unexpected) fun _ => ?_
  · have h₂ := h₁.takes has
    exact (runs_importedName f h₂.good).bind fun n r₃ hn => .pure (h₂.append hn)
  · exact .bind_check fun _ _ =>
      .pure ((ht.alone (.bindingName target.text) h.weaken rfl nofun).sees hs)

theorem runs_exportName (h : r.Good source limit) :
    exportName.Runs r fun n => Reads source limit r.cursor [n.asName] := by
  refine bind_expectIn h rfl fun target r₁ _ ht => ?_
  have h₁ := ht.reads h.weaken
  refine if_tookWord h₁.good (fun _ r₂ has => ?_) fun _ r₂ hs => .bind_pure (.pure ?_)
  · have h₂ := h₁.takes has
    exact bind_expectIn h₂.good rfl fun asName r₃ _ hname =>
      .pure (h₂.append (hname.alone (.bindingName asName.text) h₂.good.weaken rfl nofun).toSpans)
  · exact (ht.alone (.bindingName target.text) h.weaken rfl nofun).sees hs

theorem runs_moduleNames {name : Parse (ModuleName Node)} (hbound : limit ≤ bound)
    (hname : ∀ {r : Reader}, r.Good source limit →
      name.Runs r fun n => Reads source limit r.cursor [n.asName])
    (h : r.Good source limit) :
    (moduleNames bound name).Runs r fun names =>
      Spans source limit r.cursor (names.map ModuleName.asName) := by
  refine bind_expectPunctuator h fun _ r₁ ht => ?_
  refine .bind (Runs.loop
    (I := fun read => Spans source limit r.cursor (read.reverse.map ModuleName.asName))
    (Q := fun read => Spans source limit r.cursor (read.reverse.map ModuleName.asName))
    (fun _ _ h => h.good) (fun read r₂ h₂ => ?_) hbound (ht.spans h.weaken))
    fun _ _ hread => .pure hread
  refine if_tookPunctuator h₂.good (fun _ r₃ ht => .pure (h₂.takes ht)) fun _ r₃ hs => ?_
  have h₃ := h₂.sees hs
  refine (hname h₃.good).bind fun n r₄ hn => ?_
  extract_lets read'
  have hread : Spans source limit r.cursor (read'.reverse.map ModuleName.asName) r₄ := by
    simpa [read'] using h₃.append hn.toSpans
  refine if_tookPunctuator hread.good (fun _ r₅ ht => .pure ⟨hread.takes ht, ?_⟩) fun _ r₅ hs₅ => ?_
  · exact hs.cursor ▸ (hn.takes ht).lt h₃.good
  · have h₅ := hread.sees hs₅
    exact bind_expectPunctuator h₅.good fun _ r₆ ht => .pure (h₅.takes ht)

theorem runs_importNames {rules : Rules} (hbound : limit ≤ rules.bound) (f : Frame)
    (h : r.Good source limit) :
    (importNames rules f).Runs r fun names => Spans source limit r.cursor names.children := by
  refine if_tookPunctuator h (fun _ r₁ ht => ?_) fun _ r₁ hs => ?_
  · have h₁ := ht.spans h.weaken
    refine bind_expectWord h₁.good fun _ r₂ ht₂ => ?_
    have h₂ := h₁.takes ht₂
    exact (runs_importedName f h₂.good).bind fun n r₃ hn => .pure (h₂.append hn)
  · have h₁ := (Spans.refl h).sees hs
    exact (runs_moduleNames hbound (runs_importName f) h₁.good).bind fun names r₂ hnames =>
      .pure (h₁.append hnames)

theorem runs_importBindings {rules : Rules} (hbound : limit ≤ rules.bound) (f : Frame)
    (h : r.Good source limit) :
    (importBindings rules f).Runs r fun (name, names) => Spans source limit r.cursor
      (name.toList ++ names.toList.flatMap ModuleNames.children) := by
  refine bind_peek h fun t r₁ hs => ?_
  have h₁ := (Spans.refl h).sees hs
  refine .ite (fun _ => ?_) fun _ => ?_
  · refine (runs_importedName f h₁.good).bind fun name r₂ hn => ?_
    have h₂ := h₁.append hn
    refine if_tookPunctuator h₂.good (fun _ r₃ ht => ?_) fun _ r₃ hs => .pure (h₂.sees hs)
    have h₃ := h₂.takes ht
    exact (runs_importNames hbound f h₃.good).bind fun names r₄ hnames =>
      .pure (by simpa using h₃.append hnames)
  · exact (runs_importNames hbound f h₁.good).bind fun names r₄ hnames =>
      .pure (by simpa using h₁.append hnames)

theorem runs_importDeclaration {rules : Rules} (hbound : limit ≤ rules.bound) (f : Frame)
    (h : r.Good source (limit + 1)) :
    (importDeclaration rules f).Runs r fun n => Reads source limit r.cursor [n] := by
  refine .bind_mark (bind_expectWord h fun _ r₁ ht => ?_)
  have h₁ := ht.reads h
  refine bind_peek h₁.good fun t r₂ hs => ?_
  have h₂ := h₁.sees hs
  extract_lets goesOn
  have hgoesOn {name : Option Node} {names : Option (ModuleNames Node)} {r₃ : Reader}
      (h₃ : Spans source limit r₂.cursor
        (name.toList ++ names.toList.flatMap ModuleNames.children) r₃) :
      (goesOn (name, names)).Runs r₃ fun n => Reads source limit r.cursor [n] := by
    refine (runs_moduleSource h₃.good).bind fun path r₄ h₄ => ?_
    refine (runs_endStatement h₄.good).bind fun _ r₅ h₅ => .bind_spanFrom (.pure ?_)
    exact ((h₂.append h₃).skips (h₄.append h₅)).node (.importDeclaration name names _) h rfl nofun
  refine .ite (fun _ => .bind_pure (hgoesOn (.refl h₂.good))) fun _ => ?_
  refine (runs_importBindings hbound f h₂.good).bind fun (name, names) r₃ h₃ => ?_
  exact bind_expectWord h₃.good fun _ r₄ ht => .bind_pure (hgoesOn (h₃.takes ht))

/-- What an export shows, between the cursor and the reader. -/
def ShapeSpans (source : List Char) (limit : Nat) (c : Cursor) (shape : Shape Node) (r : Reader) :
    Prop :=
  Spans source limit c shape.children r ∧ shape.shorthand? = none

theorem runs_exportNames {rules : Rules} (hbound : limit ≤ rules.bound) (h : r.Good source limit) :
    (exportNames rules).Runs r (ShapeSpans source limit r.cursor) := by
  refine (runs_moduleNames hbound runs_exportName h).bind fun names r₁ h₁ => ?_
  extract_lets goesOn
  have hgoesOn {path : Option String} {r₂ : Reader} (h₂ : Spans source limit r₁.cursor [] r₂) :
      (goesOn path).Runs r₂ (ShapeSpans source limit r.cursor) :=
    (runs_endStatement h₂.good).bind fun _ _ h₃ => .pure ⟨(h₁.skips h₂).skips h₃, rfl⟩
  refine if_tookWord h₁.good (fun _ r₂ ht => ?_) fun _ r₂ hs => .bind_pure (hgoesOn ?_)
  · have h₂ := ht.spans h₁.good.weaken
    exact (runs_moduleSource h₂.good).bind fun path r₃ h₃ => .bind_pure (hgoesOn (h₂.skips h₃))
  · exact (Spans.refl h₁.good).sees hs

theorem runs_exportAll (h : r.Good source limit) :
    exportAll.Runs r (ShapeSpans source limit r.cursor) := by
  unfold exportAll
  extract_lets goesOn
  have hgoesOn {asName : Option Node} {r₁ : Reader}
      (h₁ : Spans source limit r.cursor asName.toList r₁) :
      (goesOn asName).Runs r₁ (ShapeSpans source limit r.cursor) := by
    refine bind_expectWord h₁.good fun _ r₂ ht => ?_
    have h₂ := h₁.takes ht
    refine (runs_moduleSource h₂.good).bind fun path r₃ h₃ => ?_
    exact (runs_endStatement h₃.good).bind fun _ _ h₄ => .pure ⟨(h₂.skips h₃).skips h₄, rfl⟩
  refine if_tookWord h (fun _ r₁ ht => ?_) fun _ r₁ hs => .bind_pure (hgoesOn ?_)
  · have h₁ := ht.spans h.weaken
    exact bind_expectIn h₁.good rfl fun name r₂ _ hname => .bind_pure
      (hgoesOn (h₁.append (hname.alone (.bindingName name.text) h₁.good.weaken rfl nofun).toSpans))
  · exact (Spans.refl h).sees hs

variable {rules : Rules} (hr : rules.Proceeds source limit)

include hr

theorem runs_exportDefault (f : Frame) (h : r.Good source limit) :
    (exportDefault rules f).Runs r (ShapeSpans source limit r.cursor) := by
  refine bind_peek h fun t r₁ hs => ?_
  have h₁ := (Spans.refl h).sees hs
  extract_lets goesOn
  have hgoesOn {isFunction : Bool} {r₂ : Reader} (h₂ : Spans source limit r.cursor [] r₂) :
      (goesOn isFunction).Runs r₂ (ShapeSpans source limit r.cursor) := by
    refine .ite (fun _ => ?_) fun _ => .ite (fun _ => ?_) fun _ => ?_
    · exact (runs_functionDeclaration hr f false h₂.good.weaken).bind fun n r₃ hn =>
        .pure ⟨h₂.append hn.toSpans, rfl⟩
    · exact (runs_classDeclaration hr f false h₂.good.weaken).bind fun n r₃ hn =>
        .pure ⟨h₂.append hn.toSpans, rfl⟩
    · refine (hr.expression f _ h₂.good).bind fun value r₃ h₃ => .ite (fun _ => ?_) fun _ => ?_
      · exact (runs_endStatement h₃.good).bind fun _ r₄ h₄ =>
          .pure ⟨h₂.append (h₃.skips h₄).toSpans, rfl⟩
      · exact .pure ⟨h₂.append h₃.toSpans, rfl⟩
  refine .ite (fun _ => .bind_pure (hgoesOn h₁)) fun _ => ?_
  exact (runs_startsAsyncFunction h₁.good).bind fun _ r₂ h₂ => hgoesOn (h₁.skips h₂)

theorem runs_exportDeclaration (f : Frame) (t : Token) (h : r.Good source limit) :
    (exportDeclaration rules f t).Runs r (ShapeSpans source limit r.cursor) := by
  refine (hr.statement f h).bind fun declaration r₁ h₁ => ?_
  split
  case h_4 => exact .unexpected
  all_goals exact .pure ⟨h₁.toSpans, rfl⟩

theorem runs_exportStatement (f : Frame) (h : r.Good source (limit + 1)) :
    (exportStatement rules f).Runs r fun n => Reads source limit r.cursor [n] := by
  refine .bind_mark (bind_expectWord h fun _ r₁ ht => .bind_mark ?_)
  have h₁ := ht.reads h
  refine bind_next h₁.good fun t r₂ hnext hahead => ?_
  extract_lets goesOn
  -- what follows the word, read with or without the token behind it
  have hgoesOn {read : Parse (Shape Node)} {r' : Reader}
      (h' : Spans source limit r₁.cursor [] r')
      (hread : read.Runs r' (ShapeSpans source limit r'.cursor)) :
      (read >>= goesOn).Runs r' fun n => Reads source limit r.cursor [n] :=
    hread.bind fun shape r'' ⟨h'', hshort⟩ => .bind_spanFrom
      (.pure (((h₁.skips h').append h'').node _ h rfl (by simp [hshort])))
  have hbare : Spans source limit r₁.cursor [] ⟨r₁.cursor, none⟩ := .refl h₁.good.bare
  split
  case h_1 => exact .bind_rewind (hgoesOn hbare (runs_exportNames hr.bound h₁.good.bare))
  case h_2 hkind =>
    have h₂ := Takes.spans ⟨hnext, hahead, hkind ▸ nofun⟩ h₁.good.weaken
    exact hgoesOn h₂ (runs_exportAll h₂.good)
  case h_3 hkind =>
    have h₂ := Takes.spans ⟨hnext, hahead, hkind ▸ nofun⟩ h₁.good.weaken
    exact hgoesOn h₂ (runs_exportDefault hr f h₂.good)
  case h_4 =>
    refine .ite (fun _ => ?_) fun _ => .bind_unexpected
    exact .bind_rewind (hgoesOn hbare (runs_exportDeclaration hr f t h₁.good.bare))

/-! ## Simple statements -/

omit hr in
theorem runs_statementValue {f : Frame}
    (h : (rules.expression f .ofStatement).Runs r fun x => Reads source limit r.cursor [x.node]) :
    (statementValue rules f).Runs r fun n => Reads source limit r.cursor [n] :=
  h.bind fun _ _ hx => .ite (fun _ => bind_expectPunctuator hx.good fun _ _ ht =>
    .pure (hx.takes ht)) fun _ => .pure hx

omit hr in
theorem runs_expressionStatement {f : Frame}
    (h : (rules.expression f .ofStatement).Runs r fun x => Reads source limit r.cursor [x.node]) :
    (expressionStatement rules f).Runs r fun n => Reads source limit r.cursor [n] :=
  (runs_statementValue h).bind fun value _ hx =>
    .pure (hx.wrap (.expressionStatement value) rfl nofun)

theorem runs_variableStatement (f : Frame) (h : r.Good source (limit + 1)) :
    (variableStatement rules f).Runs r fun n => Reads source limit r.cursor [n] :=
  (runs_variableDeclaration hr f .statement h).bind fun declaration _ hx =>
    .pure (hx.wrap (.variableStatement declaration) rfl nofun)

omit hr in
theorem runs_emptyStatement (h : r.Good source (limit + 1)) :
    emptyStatement.Runs r fun n => Reads source limit r.cursor [n] :=
  bind_expectPunctuator h fun _ _ ht => .pure (ht.alone .emptyStatement h rfl nofun)

omit hr in
theorem runs_debuggerStatement (h : r.Good source (limit + 1)) :
    debuggerStatement.Runs r fun n => Reads source limit r.cursor [n] :=
  bind_expectWord h fun _ _ ht => (runs_endStatement (ht.good h)).bind fun _ _ hend =>
    .pure ((ht.alone .debuggerStatement h rfl nofun).skips hend)

theorem runs_returnStatement (f : Frame) (h : r.Good source (limit + 1)) :
    (returnStatement rules f).Runs r fun n => Reads source limit r.cursor [n] := by
  refine bind_expectWord h fun first r₁ ht => .ite (fun _ => .refuse) fun _ => ?_
  have h₁ := ht.good h
  refine bind_peek h₁ fun after r₂ hs => ?_
  extract_lets goesOn
  have hgoesOn {isBare : Bool} {r₃ : Reader} (h₃ : Spans source limit r₁.cursor [] r₃) :
      (goesOn isBare).Runs r₃ fun n => Reads source limit r.cursor [n] := by
    refine .ite (fun _ => .pure ((ht.alone (.returnStatement none) h rfl nofun).skips h₃))
      fun _ => ?_
    exact (runs_statementValue (hr.expression f _ h₃.good)).bind fun value r₄ h₄ =>
      .pure (ht.before h (h₃.append h₄.toSpans) rfl nofun)
  have h₂ := (Spans.refl h₁).sees hs
  refine .ite (fun _ => .bind_pure (hgoesOn h₂)) fun _ => ?_
  exact (runs_tookPunctuator h₂.good).bind fun _ r₃ h₃ => hgoesOn (h₂.skips h₃)

theorem runs_throwStatement (f : Frame) (h : r.Good source (limit + 1)) :
    (throwStatement rules f).Runs r fun n => Reads source limit r.cursor [n] := by
  refine bind_expectWord h fun first r₁ ht => bind_peek (ht.good h) fun after r₂ hs => ?_
  have h₂ := (Spans.refl (ht.good h)).sees hs
  refine .ite (fun _ => .refuse) fun _ => ?_
  exact (runs_statementValue (hr.expression f _ h₂.good)).bind fun value r₃ h₃ =>
    .pure (ht.before h (h₂.append h₃.toSpans) rfl nofun)

/-! ## Labels and jumps -/

omit hr in
theorem runs_jumpStatement (f : Frame) (j : Jump) (h : r.Good source (limit + 1)) :
    (jumpStatement f j).Runs r fun n => Reads source limit r.cursor [n] := by
  refine bind_expectWord h fun first r₁ ht => bind_peek (ht.good h) fun after r₂ hs => ?_
  have h₁ := ht.good h
  have hchildren (label : Option String) : (j.shape label).children = [] := by cases j <;> rfl
  have hshort (label : Option String) : (j.shape label).shorthand? = none := by cases j <;> rfl
  refine .ite (fun hlabel => ?_) fun _ => .bind_check fun _ _ => ?_
  · refine bind_skip hs (fun hend => by simp [hend, Kind.isBindingName] at hlabel)
      fun r₃ hafter => ?_
    refine .bind_check fun _ _ => ?_
    have hjump : Reads source limit r.cursor
        [⟨first.span.cover after.span, j.shape (some after.text)⟩] r₃ :=
      ht.bracketed h ((hchildren _).symm ▸ .refl h₁) hafter (by simp [hshort])
    exact (runs_endStatement hjump.good).bind fun _ _ hend => .pure (hjump.skips hend)
  · have hjump := (ht.alone (j.shape none) h (hchildren _) (by simp [hshort])).sees hs
    exact (runs_endStatement hjump.good).bind fun _ _ hend => .pure (hjump.skips hend)

theorem runs_labelledStatement (f : Frame) (h : r.Good source (limit + 1)) :
    (labelledStatement rules f).Runs r fun n => Reads source limit r.cursor [n] := by
  refine bind_expectIn h rfl fun label r₁ _ ht => .bind_check fun _ _ => ?_
  refine .ite (fun _ => .refuse) fun _ => bind_expectPunctuator (ht.good h) fun _ r₂ hcolon => ?_
  have h₂ := hcolon.spans (ht.good h).weaken
  exact (hr.statement _ h₂.good).bind fun n r₃ hn =>
    .pure (ht.before h (h₂.append hn.toSpans) rfl nofun)

/-! ## Compound statements -/

theorem runs_block (f : Frame) (h : r.Good source (limit + 1)) :
    (block rules f).Runs r fun n => Reads source limit r.cursor [n] := by
  refine bind_expectPunctuator h fun first r₁ ht => (runs_statements hr f (ht.good h)).bind ?_
  rintro ⟨body, close⟩ r₃ ⟨r₂, h₂, hclose⟩
  exact .pure (ht.bracketed h h₂ hclose nofun)

theorem runs_ifStatement (f : Frame) (h : r.Good source (limit + 1)) :
    (ifStatement rules f).Runs r fun n => Reads source limit r.cursor [n] := by
  refine bind_expectWord h fun first r₁ ht => ?_
  refine (hr.parenthesised f (ht.good h).weaken).bind fun test r₂ h₂ => ?_
  refine (hr.statement f h₂.good).bind fun consequent r₃ h₃ => ?_
  have h₃ := h₂.append h₃.toSpans
  refine if_tookWord h₃.good (fun _ r₄ helse => ?_) fun _ r₄ hs => .bind_pure (.pure ?_)
  · have h₄ := h₃.takes helse
    refine (hr.statement f h₄.good).bind fun alternate r₅ h₅ => .bind_pure (.pure ?_)
    exact ht.upTo h (h₄.append h₅.toSpans).toSpans rfl nofun
  · exact ht.upTo h (h₃.sees hs).toSpans rfl nofun

theorem runs_catchClause (f : Frame) (h : r.Good source limit) :
    (catchClause rules f).Runs r fun o => Spans source limit r.cursor o.toList := by
  refine bind_takeIf h rfl (fun first r₁ _ ht => ?_) fun _ r₁ hs => .pure ((Spans.refl h).sees hs)
  have h₁ := ht.good h.weaken
  have hbody {pattern : Option Node} {r₂ : Reader}
      (h₂ : Spans source limit r₁.cursor pattern.toList r₂) :
      (block rules f >>= fun body => pure (some (⟨first.span.cover body.span,
        .catchClause pattern body⟩ : Node))).Runs r₂ fun o =>
        Spans source limit r.cursor o.toList :=
    (runs_block hr f h₂.good.weaken).bind fun body r₃ h₃ =>
      have hclause : Reads source limit r.cursor
          [⟨first.span.cover body.span, .catchClause pattern body⟩] r₃ :=
        ht.upTo h.weaken (h₂.append h₃.toSpans) rfl nofun
      .pure hclause.toSpans
  refine if_tookPunctuator h₁ (fun _ r₂ hopen => ?_) fun _ r₂ hs => .bind_pure (hbody ?_)
  · have h₂ := hopen.spans h₁.weaken
    refine (hr.pattern f _ h₂.good).bind fun pattern r₃ h₃ => ?_
    exact bind_expectPunctuator h₃.good fun _ r₄ hclose =>
      .bind_pure (hbody (h₂.append (h₃.takes hclose).toSpans))
  · exact (Spans.refl h₁).sees hs

theorem runs_tryStatement (f : Frame) (h : r.Good source (limit + 1)) :
    (tryStatement rules f).Runs r fun n => Reads source limit r.cursor [n] := by
  refine bind_expectWord h fun first r₁ ht => ?_
  refine (runs_block hr f (ht.good h).weaken).bind fun body r₂ h₂ => ?_
  refine (runs_catchClause hr f h₂.good).bind fun handler r₃ h₃ => ?_
  have h₃ := h₂.append h₃
  extract_lets goesOn
  have hgoesOn (finalizer : Option Node) {r₄ : Reader}
      (h₄ : Spans source limit r₃.cursor finalizer.toList r₄) :
      (goesOn finalizer).Runs r₄ fun n => Reads source limit r.cursor [n] := by
    have hparts := (h₃.append h₄).toSpans
    cases finalizer with
    | some last => exact .pure (ht.upTo h hparts rfl nofun)
    | none =>
      cases handler with
      | some last =>
        have hparts : Spans source limit r₁.cursor ([body] ++ [last]) r₄ := by simpa using hparts
        exact .pure (ht.upTo h hparts rfl nofun)
      | none => exact .refuse
  refine if_tookWord h₃.good (fun _ r₄ hfinally => ?_) fun _ r₄ hs => .bind_pure (hgoesOn none ?_)
  · have h₄ := hfinally.spans h₃.good.weaken
    exact (runs_block hr f h₄.good.weaken).bind fun finalizer r₅ h₅ =>
      .bind_pure (hgoesOn (some finalizer) (h₄.append h₅.toSpans))
  · exact (Spans.refl h₃.good).sees hs

omit hr in
/-- The span is covered on, statement by statement. -/
theorem encloses_statements {lo hi hi' : Nat} {s : Span} {xs body : List Node}
    (h : Encloses source lo s xs hi) (hbody : Row source hi body hi') :
    Encloses source lo (body.foldl (fun s n => s.cover n.span) s) (xs ++ body) hi' := by
  induction body generalizing s xs hi with
  | nil => simpa using h.mono le_rfl hbody.le
  | cons n rest ih => simpa using ih (h.upTo hbody.head) hbody.tail

theorem runs_switchCase (f : Frame) (h : r.Good source (limit + 1)) :
    (switchCase rules f).Runs r fun n => Reads source limit r.cursor [n] := by
  refine bind_peek h fun first r₁ hs => ?_
  have h₁ := hs.good h
  extract_lets goesOn
  -- from the word on, which is the token that was looked at
  have hgoesOn (test : Option Node) {word : Token} {r₂ r₃ : Reader}
      (ht : r.Takes .division word r₂) (h₃ : Spans source limit r₂.cursor test.toList r₃) :
      (goesOn test).Runs r₃ fun n => Reads source limit r.cursor [n] := by
    obtain rfl := hs.eq_of_takes ht rfl
    refine bind_expectPunctuator h₃.good fun colon r₄ hcolon => ?_
    have h₄ := h₃.takes hcolon
    refine (runs_collectNodes (fun r h => ?_) hr.bound h₄.good).bind fun body r₅ h₅ => .pure ?_
    · refine bind_peek h fun t r' hs' => ?_
      have h' := (Spans.refl h).sees hs'
      split
      case h_4 =>
        refine (hr.statement f h'.good).bind fun n r'' hn => .pure ?_
        have hn := h'.reads hn
        exact ⟨hn.toSpans, fun _ => hn.passes⟩
      all_goals exact .pure ⟨h', nofun⟩
    · have hhead := (ht.encloses h).between h₃.row (hcolon.encloses h₃.good)
      have hspan := encloses_statements hhead h₅.row
      exact (((ht.reads h).append h₄).append h₅).of_row
        (Encloses.node (.switchCase test body) hspan nofun)
  refine if_tookWord h₁ (fun word r₂ ht => ?_) fun _ r₂ hs₂ => ?_
  · exact (hr.whole f _ (ht.good h₁)).bind fun test r₃ h₃ =>
      .bind_pure (hgoesOn (some test) (hs.takes ht) h₃.toSpans)
  · have h₂ := hs₂.good h₁
    exact bind_expectWord h₂ fun word r₃ ht =>
      .bind_pure (hgoesOn none (hs.takes (hs₂.takes ht)) (.refl (ht.good h₂)))

theorem runs_switchStatement (f : Frame) (h : r.Good source (limit + 1)) :
    (switchStatement rules f).Runs r fun n => Reads source limit r.cursor [n] := by
  refine bind_expectWord h fun first r₁ ht => ?_
  refine (hr.parenthesised f (ht.good h).weaken).bind fun subject r₂ h₂ => ?_
  refine bind_expectPunctuator h₂.good fun _ r₃ hopen => ?_
  have h₃ := h₂.takes hopen
  refine (runs_collectNodes (fun r h => ?_) hr.bound h₃.good).bind fun cases r₄ h₄ => ?_
  · refine if_atPunctuator h (fun _ r' hs => .pure ⟨(Spans.refl h).sees hs, nofun⟩)
      fun _ r' hs => ?_
    have h' := (Spans.refl h).sees hs
    refine (runs_switchCase hr _ h'.good.weaken).bind fun n r'' hn => .pure ?_
    have hn := h'.reads hn
    exact ⟨hn.toSpans, fun _ => hn.passes⟩
  · exact bind_expectPunctuator h₄.good fun close r₅ hclose =>
      .pure (ht.bracketed h (h₃.append h₄).toSpans hclose nofun)

theorem runs_withStatement (f : Frame) (h : r.Good source (limit + 1)) :
    (withStatement rules f).Runs r fun n => Reads source limit r.cursor [n] := by
  refine bind_expectWord h fun first r₁ ht => .ite (fun _ => .refuse) fun _ => ?_
  refine (hr.parenthesised f (ht.good h).weaken).bind fun object r₂ h₂ => ?_
  exact (hr.statement f h₂.good).bind fun body r₃ h₃ =>
    .pure (ht.upTo h (h₂.append h₃.toSpans).toSpans rfl nofun)

/-! ## All statements -/

omit hr in
theorem runs_startsImportExpression (h : r.Good source limit) :
    startsImportExpression.Runs r fun _ => Spans source limit r.cursor [] :=
  bind_peekSecond h fun _ => .pure (.refl h.bare)

variable (hbelow : rules.ProceedsBelow source (limit + 1))

include hbelow

theorem runs_plainStatement (f : Frame) (t : Token) (h : r.Good source (limit + 1)) :
    (plainStatement rules f t).Runs r fun n => Reads source (limit + 1) r.cursor [n] := by
  have expressionFrom {r' : Reader} (h' : Spans source (limit + 1) r.cursor [] r') :
      (expressionStatement rules f).Runs r' fun n => Reads source (limit + 1) r.cursor [n] :=
    (runs_expressionStatement (hbelow.expression f _ h'.good)).mono fun _ _ hn => h'.reads hn
  -- a statement that starts with its own word
  have fromHere {read : Parse Node} {r' : Reader}
      (h' : Spans source (limit + 1) r.cursor [] r')
      (hread : r'.Good source (limit + 1) →
        read.Runs r' fun n => Reads source limit r'.cursor [n]) :
      read.Runs r' fun n => Reads source (limit + 1) r.cursor [n] :=
    (hread h'.good).mono fun _ _ hn => (h'.reads hn).weaken
  have here := Spans.refl h
  unfold plainStatement
  split
  case h_1 => exact fromHere here (runs_block hr f)
  case h_2 => exact fromHere here runs_emptyStatement
  case h_3 | h_4 => exact fromHere here (runs_jumpStatement f _)
  case h_5 => exact fromHere here (runs_classDeclaration hr f true)
  case h_6 => exact fromHere here runs_debuggerStatement
  case h_7 => exact fromHere here (runs_doWhileLoop hr f)
  case h_8 => exact fromHere here (runs_exportStatement hr f)
  case h_9 => exact fromHere here (runs_forLoop hr f)
  case h_10 => exact fromHere here (runs_functionDeclaration hr f true)
  case h_11 => exact fromHere here (runs_ifStatement hr f)
  case h_12 =>
    refine (runs_startsImportExpression h).bind fun _ r₁ h₁ => .ite (fun _ => ?_) fun _ => ?_
    · exact expressionFrom h₁
    · exact fromHere h₁ (runs_importDeclaration hr.bound f)
  case h_13 => exact fromHere here (runs_returnStatement hr f)
  case h_14 => exact fromHere here (runs_switchStatement hr f)
  case h_15 => exact fromHere here (runs_throwStatement hr f)
  case h_16 => exact fromHere here (runs_tryStatement hr f)
  case h_17 => exact fromHere here (runs_whileLoop hr f)
  case h_18 => exact fromHere here (runs_withStatement hr f)
  case h_19 =>
    refine (runs_startsVariables h).bind fun _ r₁ h₁ => .ite (fun _ => ?_) fun _ => ?_
    · exact fromHere h₁ (runs_variableStatement hr f)
    · refine (runs_startsAsyncFunction h₁.good).bind fun _ r₂ h₂ => ?_
      have h₂ := h₁.skips h₂
      refine .ite (fun _ => ?_) fun _ => expressionFrom h₂
      exact fromHere h₂ (runs_functionDeclaration hr f true)

theorem runs_statement (f : Frame) (h : r.Good source (limit + 1)) :
    (statement rules f).Runs r fun n => Reads source (limit + 1) r.cursor [n] := by
  refine bind_peek h fun t r₁ hs => ?_
  have h₁ := (Spans.refl h).sees hs
  extract_lets goesOn
  have hgoesOn {isLabelled : Bool} {r' : Reader} (h' : Spans source (limit + 1) r.cursor [] r') :
      (goesOn isLabelled).Runs r' fun n => Reads source (limit + 1) r.cursor [n] := by
    refine .ite (fun _ => ?_) fun _ => ?_
    · exact (runs_labelledStatement hr f h'.good).mono fun _ _ hn => (h'.reads hn).weaken
    · exact (runs_plainStatement hr hbelow _ t h'.good).mono fun _ _ hn => h'.reads hn
  refine .ite (fun _ => ?_) fun _ => .bind_pure (hgoesOn h₁)
  exact bind_peekSecond h₁.good fun _ => .bind_pure (hgoesOn (h₁.skips (.refl h₁.good.bare)))

end ScriptMin.Grammar
