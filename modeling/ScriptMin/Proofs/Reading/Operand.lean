import ScriptMin.Grammar.Operand
import ScriptMin.Proofs.Reading.Class

/-!
# What operands read

Arrow functions, literals, accesses and the operators before an operand end, and their nodes nest.
An arrow function that turns out to be none is read again from its parenthesis, in a second reading
of the same length.
-/

namespace ScriptMin.Grammar

open Source Parse Reader

variable {source : List Char} {limit : Nat} {r r' : Reader} {rules : Rules}
  (hr : rules.Proceeds source limit)

/-! ## Arrow functions -/

theorem bind_arrow {α : Type} {k : Token → Parse α} {R : α → Reader → Prop}
    (h : r.Good source limit) (hk : ∀ t r', r.Takes .division t r' → (k t).Runs r' R) :
    (arrow >>= k).Runs r R := by
  refine .bind (Q := fun t r' => r.Takes .division t r') ?_ hk
  exact bind_expectPunctuator h fun t r₁ ht => .ite (fun _ => .refuse) fun _ => .pure ht

theorem bind_checkArrow {α : Type} {e : Extent} {t : Token} {k : Unit → Parse α}
    {R : α → Reader → Prop} (hk : (k ()).Runs r R) : (checkArrow e t >>= k).Runs r R := by
  refine .bind (Q := fun _ r' => r' = r) (.ite (fun _ => .unexpected) fun _ => .pure rfl) ?_
  rintro _ _ rfl
  exact hk

/-- An arrow function starts with its parameters, or with a token in front of them. -/
def Heads (source : List Char) (lo : Nat) (start : Span) (parameters : Node) (hi : Nat) : Prop :=
  ∃ mid xs ys, xs ++ ys = [parameters] ∧ Encloses source lo start xs mid ∧ Row source mid ys hi

theorem Heads.parameters {lo hi : Nat} {parameters : Node} (h : Row source lo [parameters] hi) :
    Heads source lo parameters.span parameters hi :=
  ⟨hi, [parameters], [], rfl, .of_node h, .nil le_rfl⟩

theorem Heads.token {lo mid hi : Nat} {start : Span} {parameters : Node}
    (hstart : Encloses source lo start [] mid) (h : Row source mid [parameters] hi) :
    Heads source lo start parameters hi :=
  ⟨mid, [], [parameters], rfl, hstart, h⟩

/-- The parameter list that is a single name. -/
theorem row_singleParameter {t : Token} {lo hi : Nat} (h : Encloses source lo t.span [] hi) :
    Row source lo [⟨t.span, .signature [⟨t.span, .parameter false (bindingNode t) none⟩]⟩] hi := by
  have hname := Encloses.of_node (row_bindingNode h)
  have hparameter := Encloses.node (.parameter false (bindingNode t) none) hname nofun
  exact Encloses.node (.signature [⟨t.span, .parameter false (bindingNode t) none⟩])
    (Encloses.of_node hparameter) nofun

include hr

theorem runs_arrowBody (f : Frame) (e : Extent) (h : r.Good source limit) :
    (arrowBody rules f e).Runs r fun (body, _) => Spans source limit r.cursor [body.node] := by
  refine if_atPunctuator h (fun _ r₁ hs => ?_) fun _ r₁ hs => ?_
  · have h₁ := hs.good h
    exact (runs_functionBody hr f h₁.weaken).bind fun (body, _) r₂ h₂ =>
      .pure (hs.cursor ▸ h₂.toSpans)
  · exact (hr.expression f _ (hs.good h)).bind fun _ _ hx => .pure (hs.cursor ▸ hx.toSpans)

/-- An arrow function from its body on. -/
theorem runs_arrowFunction (f : Frame) (e : Extent) (isAsync : Bool) {start : Span}
    {parameters : Node} {c : Cursor} {zs : List Node} (h : Reads source limit c zs r) {hi : Nat}
    (hstart : Heads source c.position start parameters hi) (hhi : hi ≤ r.cursor.position) :
    (arrowFunction rules f e isAsync start parameters).Runs r fun o =>
      Reads source limit c [o.node] := by
  obtain ⟨mid, xs, ys, hparameters, hstart, hrest⟩ := hstart
  refine (runs_arrowBody hr _ e h.good).bind fun (body, strict) r₁ h₁ => ?_
  refine .bind_check fun _ _ => .pure ((h.append h₁).of_row
    (Encloses.node (.arrowFunction isAsync parameters body.node) ?_ nofun))
  have hcover := hstart.cover (hrest.mono le_rfl hhi) (.of_node h₁.row)
  rwa [hparameters] at hcover

theorem runs_singleParameterArrow (f : Frame) (e : Extent) (isAsync : Bool) {start : Span}
    {name : Token} {c : Cursor} {zs : List Node} (h : Reads source limit c zs r)
    (hstart : Heads source c.position start
      ⟨name.span, .signature [⟨name.span, .parameter false (bindingNode name) none⟩]⟩
      r.cursor.position) :
    (singleParameterArrow rules f e isAsync start name).Runs r fun o =>
      Reads source limit c [o.node] :=
  bind_arrow h.good fun _ _ ht => bind_checkArrow (.bind_check fun _ _ =>
    runs_arrowFunction hr f e isAsync (h.takes ht) hstart (ht.le h.good))

/-- What turns out not to be an arrow function is given back. -/
theorem runs_parenthesisedArrow? (f : Frame) (e : Extent) (isAsync : Bool) (start : Option Span)
    {c : Cursor} (hc : Spans source (limit + 1) c [] r)
    (hstart : ∀ parameters r', Reads source limit r.cursor [parameters] r' →
      Heads source c.position (start.getD parameters.span) parameters r'.cursor.position) :
    (parenthesisedArrow? rules f e isAsync start).Runs r fun o r' =>
      (∀ operand ∈ o, Reads source limit c [operand.node] r') ∧
        (o = none → r' = ⟨r.cursor, none⟩) := by
  refine .bind (Q := fun head r' => match head with
    | some (parameters, t) => ∃ r₁, Reads source limit r.cursor [parameters] r₁ ∧
      r₁.Takes .division t r'
    | none => r' = ⟨r.cursor, none⟩) ?_ ?_
  · refine .attempt ?_ rfl
    refine (runs_signature hr _ hc.good).bind fun parameters r₁ h₁ => ?_
    exact bind_arrow h₁.good fun t r₂ ht => .pure ⟨r₁, h₁, ht⟩
  · rintro (_ | ⟨parameters, t⟩) r₂ h₂
    · exact .pure ⟨nofun, fun _ => h₂⟩
    · obtain ⟨r₁, h₁, ht⟩ := h₂
      refine bind_checkArrow ((runs_arrowFunction hr f e isAsync ((hc.reads h₁).takes ht)
        (hstart _ _ h₁) (ht.le h₁.good)).bind fun o r₃ h₃ => .pure ⟨?_, nofun⟩)
      rintro _ ⟨⟩
      exact h₃

/-! ## Arguments and literals -/

theorem runs_arguments (f : Frame) (h : r.Good source limit) :
    (arguments rules f).Runs r fun ns => Spans source limit r.cursor ns := by
  refine .bind (Runs.loop (I := fun read => Spans source limit r.cursor read.reverse)
    (Q := fun read => Spans source limit r.cursor read.reverse)
    (fun _ _ h => h.good) (fun read r₁ h₁ => ?_) hr.bound (.refl h)) fun _ _ hread => .pure hread
  refine if_atPunctuator h₁.good (fun _ r₂ hs => .pure (h₁.sees hs)) fun _ r₂ hs => ?_
  have h₂ := h₁.sees hs
  -- an argument with or without dots in front of it
  have hargument {spread : Option Token} {r₃ : Reader} (h₃ : r₃.Good source limit)
      (hspread : (∃ t, spread = some t ∧ r₂.Takes .division t r₃) ∨
        (spread = none ∧ Spans source limit r₂.cursor [] r₃)) {value : Node} {r₄ : Reader}
      (h₄ : Reads source limit r₃.cursor [value] r₄) :
      Reads source limit r₂.cursor [⟨(spread.map fun t => t.span.cover value.span).getD value.span,
        .argument spread.isSome value⟩] r₄ := by
    rcases hspread with ⟨t, rfl, ht⟩ | ⟨rfl, hs⟩
    · exact ht.before h₂.good.weaken h₄.toSpans rfl nofun
    · have hvalue := hs.reads h₄
      exact hvalue.of_row (Encloses.node (.argument false value) (.of_node hvalue.row) nofun)
  refine (runs_takeIf_spans h₂.good rfl).bind fun spread r₃ hspread => ?_
  have h₃ : r₃.Good source limit := by
    rcases hspread with ⟨t, -, ht⟩ | ⟨-, hs⟩
    · exact ht.good h₂.good.weaken
    · exact hs.good
  refine (hr.single f _ h₃).bind fun value r₄ h₄ => ?_
  have hone := hargument h₃ hspread h₄
  have hread := h₂.snoc hone.toSpans
  refine if_tookPunctuator hread.good (fun _ r₅ ht => .pure ⟨hread.takes ht, ?_⟩)
    fun _ r₅ hs => .pure (hread.sees hs)
  exact hs.cursor ▸ (hone.takes ht).lt h₂.good

/-- An array literal, whose opening bracket was just read. -/
theorem runs_arrayLiteral (f : Frame) {first : Token} {mode : SlashMode}
    (h : r.Good source (limit + 1)) (ht : r.Takes mode first r') :
    (arrayLiteral rules f first).Runs r' fun n => Reads source limit r.cursor [n] := by
  refine .bind (Runs.loop
    (I := fun read => Spans source limit r'.cursor (read.reverse.flatMap ArrayElement.children))
    (Q := fun read => Spans source limit r'.cursor (read.reverse.flatMap ArrayElement.children))
    (fun _ _ h => h.good) (fun read r₁ h₁ => ?_) hr.bound (.refl (ht.good h)))
    fun reversed r₁ h₁ => bind_expectPunctuator h₁.good fun close r₂ hclose =>
      .pure (ht.bracketed h h₁ hclose nofun)
  refine if_tookPunctuator h₁.good (fun _ r₂ ht => .pure ⟨?_, ht.lt h₁.good⟩) fun _ r₂ hs => ?_
  · exact h₁.snocParts (x := .hole) (ht.spans h₁.good.weaken)
  have h₂ := h₁.sees hs
  refine if_atPunctuator h₂.good (fun _ r₃ hs => .pure (h₂.sees hs)) fun _ r₃ hs₃ => ?_
  have h₃ := h₂.sees hs₃
  refine (runs_tookPunctuator h₃.good).bind fun isSpread r₄ h₄ => ?_
  refine (hr.single f _ h₄.good).bind fun value r₅ h₅ => ?_
  have hvalue := h₄.reads h₅
  extract_lets read'
  have hread : Spans source limit r'.cursor (read'.reverse.flatMap ArrayElement.children) r₅ :=
    h₃.snocParts (by cases isSpread <;> exact hvalue.toSpans)
  refine if_atPunctuator hread.good (fun _ r₆ hs => .pure (hread.sees hs)) fun _ r₆ hs₆ => ?_
  refine bind_expectPunctuator (hread.sees hs₆).good fun _ r₇ ht =>
    .pure ⟨(hread.sees hs₆).takes ht, ?_⟩
  exact hs.cursor ▸ hs₃.cursor ▸ ((hvalue.sees hs₆).takes ht).lt h₃.good

omit hr in
theorem children_objectMemberContent (key : Key Node) (value : MemberValue Node) :
    (objectMemberContent key value).children = key.children ++ value.children := by
  unfold objectMemberContent
  split <;> rfl

omit hr in
theorem objectMemberContent_eq_shorthand {key : Key Node} {value : MemberValue Node} {name : String}
    (h : objectMemberContent key value = .shorthand name) :
    key = .direct name ∧ value = .property none := by
  unfold objectMemberContent at h
  split at h <;> cases h
  exact ⟨rfl, rfl⟩

/-- An object literal, whose opening brace was just read. -/
theorem runs_objectLiteral (f : Frame) {first : Token} {mode : SlashMode}
    (h : r.Good source (limit + 1)) (ht : r.Takes mode first r') :
    (objectLiteral rules f first).Runs r' fun n => Reads source limit r.cursor [n] := by
  refine .bind (Runs.loop (I := fun read => Spans source limit r'.cursor read.reverse)
    (Q := fun read => Spans source limit r'.cursor read.reverse)
    (fun _ _ h => h.good) (fun read r₁ h₁ => ?_) hr.bound (.refl (ht.good h)))
    fun reversed r₁ h₁ => bind_expectPunctuator h₁.good fun close r₂ hclose =>
      .pure (ht.bracketed h h₁ hclose nofun)
  refine if_atPunctuator h₁.good (fun _ r₂ hs => .pure (h₁.sees hs)) fun _ r₂ hs => ?_
  have h₂ := h₁.sees hs
  refine .bind_mark ?_
  extract_lets goesOn
  have hgoesOn (content : ObjectMember Node) {r₃ : Reader}
      (h₃ : Reads source limit r₂.cursor content.children r₃)
      (hshort : ∀ name, content = .shorthand name →
        Span.EndsWith source ⟨r₂.cursor.position, r₃.cursor.position⟩ name) :
      (goesOn content).Runs r₃ (Collects source limit r'.cursor r₁.cursor.position) := by
    refine .bind_spanFrom ?_
    have hmember := h₃.node (.objectMember content) h₂.good rfl (by
      cases content <;> simp_all [Shape.shorthand?])
    have hread := h₂.snoc hmember.toSpans
    refine if_atPunctuator hread.good (fun _ r₄ hs => .pure (hread.sees hs)) fun _ r₄ hs₄ => ?_
    refine bind_expectPunctuator (hread.sees hs₄).good fun _ r₅ ht =>
      .pure ⟨(hread.sees hs₄).takes ht, ?_⟩
    exact hs.cursor ▸ ((hmember.sees hs₄).takes ht).lt h₂.good
  refine if_tookPunctuator h₂.good (fun _ r₃ ht => ?_) fun _ r₃ hs₃ => ?_
  · have h₃ := ht.reads h₂.good.weaken
    exact (hr.single f _ h₃.good).bind fun value r₄ h₄ =>
      .bind_pure (hgoesOn (.spread value) (h₃.append h₄.toSpans) nofun)
  · have h₃ := h₂.sees hs₃
    refine (runs_member hr f .object h₃.good.weaken).bind fun (key, value) r₄ h₄ => ?_
    obtain ⟨hmember, hname⟩ := hs₃.cursor ▸ h₄
    refine .bind_pure (hgoesOn _ ?_ fun name hcontent => ?_)
    · exact (children_objectMemberContent key value).symm ▸ hmember
    · obtain ⟨hkey, hvalue⟩ := objectMemberContent_eq_shorthand hcontent
      exact hs₃.cursor ▸ hname name hkey hvalue

/-- The parts of a template stand behind its first piece, and its span is covered up to its last. -/
theorem runs_templateParts (f : Frame) {head : Token} {lo : Nat} (h : r.Good source limit)
    (hhead : Encloses source lo head.span [] r.cursor.position) :
    (templateParts rules f head).Runs r fun (parts, span) r' =>
      Spans source limit r.cursor (parts.flatMap TemplatePart.children) r' ∧
        Encloses source lo span (parts.flatMap TemplatePart.children) r'.cursor.position := by
  refine .bind (Runs.loop
    (I := fun read r' =>
      Spans source limit r.cursor (read.1.reverse.flatMap TemplatePart.children) r' ∧
        Encloses source lo (head.span.cover read.2.span)
          (read.1.reverse.flatMap TemplatePart.children) r'.cursor.position ∧
        head.span.start ≤ read.2.span.start)
    (Q := fun read r' =>
      Spans source limit r.cursor (read.1.reverse.flatMap TemplatePart.children) r' ∧
        Encloses source lo (head.span.cover read.2.span)
          (read.1.reverse.flatMap TemplatePart.children) r'.cursor.position)
    (fun _ _ h => h.1.good) ?_ hr.bound
    ⟨.refl h, (Span.cover_self head.span).symm ▸ hhead, le_rfl⟩) fun _ _ hread => .pure hread
  rintro ⟨read, piece⟩ r₁ ⟨h₁, hcover, hle⟩
  refine .ite (fun _ => .pure ⟨h₁, hcover⟩) fun _ => ?_
  refine (hr.whole f _ h₁.good).bind fun value r₂ h₂ => ?_
  refine bind_expectPunctuator h₂.good fun _ r₃ ht => ?_
  have h₃ := h₂.takes ht
  refine bind_templateTail h₃.good fun piece' r₄ h₄ hpiece => .pure ⟨⟨?_, ?_, ?_⟩, ?_⟩
  · have hvalue := (h₃.upTo h₄ hpiece.le).toSpans
    exact (h₁.snocParts (x := .substitution value) hvalue).snocParts (x := .text _) (.refl h₄)
  · simpa [TemplatePart.children] using hcover.coverOn hle h₃.row hpiece
  · have hstart := hcover.row.le.trans (hcover.le_hi.trans (h₃.row.le.trans hpiece.lo_le))
    dsimp only [Span.cover] at hle hstart ⊢
    omega
  · exact (h₃.lt h₁.good).trans_le hpiece.le

omit hr in
theorem runs_simpleOperand (f : Frame) {t : Token} {mode : SlashMode}
    (h : r.Good source (limit + 1)) (hnext : r.cursor.next mode = .ok (t, r'.cursor))
    (hahead : r'.ahead = none) :
    (simpleOperand f t).Runs r' fun n => Reads source limit r.cursor [n] := by
  unfold simpleOperand
  extract_lets goesOn
  have hgoesOn {shape : Shape Node} (hkind : t.kind ≠ .endOfInput)
      (hchildren : shape.children = [] := by rfl)
      (hshort : ∀ name ∈ shape.shorthand?, t.span.EndsWith source name := by nofun) :
      (goesOn shape).Runs r' fun n => Reads source limit r.cursor [n] :=
    .pure (Takes.alone ⟨hnext, hahead, hkind⟩ _ h hchildren hshort)
  split
  case h_1 hkind => exact .ite (fun _ => .bind_pure (hgoesOn (hkind ▸ nofun))) fun _ => .bind_refuse
  case h_2 hkind | h_3 hkind | h_4 hkind | h_5 hkind | h_8 hkind =>
    exact .bind_pure (hgoesOn (hkind ▸ nofun))
  case h_6 hkind =>
    exact .bind_check fun _ _ => .bind_require fun _ => .bind_pure (hgoesOn (hkind ▸ nofun))
  case h_7 hkind => exact .bind_require fun _ => .bind_pure (hgoesOn (hkind ▸ nofun))
  case h_9 hkind =>
    refine .bind (Q := fun shape r₁ => r₁ = r' ∧ shape.children = [] ∧ shape.shorthand? = none)
      ?_ ?_
    · exact .bind_require fun _ => .pure ⟨rfl, rfl, rfl⟩
    · rintro shape _ ⟨rfl, hchildren, hshort⟩
      exact hgoesOn (hkind ▸ nofun) hchildren (by simp [hshort])
  case h_10 => exact .bind_unexpected

/-! ## Accesses, `new` and `import` -/

omit hr in
theorem bind_memberName {α : Type} {k : Token → Parse α} {R : α → Reader → Prop}
    (h : r.Good source limit) (hk : ∀ t r', r.Takes .division t r' → (k t).Runs r' R) :
    (memberName >>= k).Runs r R :=
  bind_expectIn h rfl fun t r' _ => hk t r'

omit hr in
theorem bind_metaName {α : Type} {isAllowed : Bool} {name : String} {k : Token → Parse α}
    {R : α → Reader → Prop} (h : r.Good source limit)
    (hk : ∀ t r', r.Takes .division t r' → (k t).Runs r' R) :
    (metaName isAllowed name >>= k).Runs r R := by
  refine .bind (Q := fun t r' => r.Takes .division t r') ?_ hk
  refine bind_nextIn h fun t r₁ hnext hahead => .ite (fun hname => .pure ⟨hnext, hahead, ?_⟩)
    fun _ => .unexpected
  intro hkind
  simp [hkind] at hname

theorem runs_subscript (f : Frame) (h : r.Good source limit) :
    (subscript rules f).Runs r fun (value, close) r' =>
      ∃ r₁, Reads source limit r.cursor [value] r₁ ∧ r₁.Takes .division close r' :=
  (hr.whole f _ h).bind fun _ r₁ h₁ =>
    bind_expectPunctuator h₁.good fun _ _ hclose => .pure ⟨r₁, h₁, hclose⟩

theorem runs_importExpression (f : Frame) {first : Token} {mode : SlashMode}
    (h : r.Good source (limit + 1)) (ht : r.Takes mode first r') :
    (importExpression rules f first).Runs r' fun n => Reads source limit r.cursor [n] := by
  have h₁ := ht.spans h
  refine if_tookPunctuator h₁.good (fun _ r₂ ht₂ => ?_) fun _ r₂ hs => ?_
  · exact bind_metaName (ht₂.good h₁.good.weaken) fun name r₃ hname =>
      .pure (ht.bracketed h (ht₂.spans h₁.good.weaken) hname nofun)
  · have h₂ := (Spans.refl h₁.good).sees hs
    refine bind_expectPunctuator h₂.good fun _ r₃ ht₃ => ?_
    have h₃ := h₂.takes ht₃
    refine (hr.single f _ h₃.good).bind fun specifier r₄ h₄ => ?_
    exact bind_expectPunctuator h₄.good fun close r₅ hclose =>
      .pure (ht.bracketed h (h₃.append h₄.toSpans) hclose nofun)

/-- The accesses after an operand, whose node stands behind `lo`. -/
theorem runs_constructorAccesses (f : Frame) {callee : Node} {c : Cursor}
    (h : Reads source limit c [callee] r) :
    (constructorAccesses rules f callee).Runs r fun n => Reads source limit c [n] := by
  refine Runs.loop (I := fun callee => Reads source limit c [callee])
    (fun _ _ h => h.good) (fun callee r₁ h₁ => ?_) hr.bound h
  refine bind_peek h₁.good fun t r₂ hs => ?_
  have h₂ := hs.good h₁.good
  split
  case h_1 hkind =>
    refine bind_skip hs (hkind ▸ nofun) fun r₃ ht => ?_
    have h₃ := ht.spans h₁.good.weaken
    refine bind_memberName h₃.good fun name r₄ hname => .pure ⟨?_, ?_⟩
    · exact h₁.goesOn h₃ (hname.encloses h₃.good) (h₃.takes hname).good rfl nofun
    · exact (ht.lt h₁.good).trans_le (hname.le h₃.good)
  case h_2 hkind =>
    refine bind_skip hs (hkind ▸ nofun) fun r₃ ht => ?_
    have h₃ := ht.spans h₁.good.weaken
    refine (runs_subscript hr f h₃.good).bind ?_
    rintro ⟨value, close⟩ r₅ ⟨r₄, h₄, hclose⟩
    refine .pure ⟨?_, ?_⟩
    · exact h₁.goesOn (h₃.append h₄.toSpans) (hclose.encloses h₄.good) (h₄.takes hclose).good rfl
        nofun
    · exact (ht.lt h₁.good).trans_le (h₄.takes hclose).row.le
  case h_3 hkind =>
    refine bind_skip hs (hkind ▸ nofun) fun r₃ ht => ?_
    have h₃ := ht.spans h₁.good.weaken
    refine (runs_templateParts hr f h₃.good (ht.encloses h₁.good)).bind ?_
    rintro ⟨parts, span⟩ r₄ ⟨h₄, hspan⟩
    refine .pure ⟨?_, ?_⟩
    · exact h₁.goesOn (.refl h₁.good) hspan h₄.good rfl nofun
    · exact (ht.lt h₁.good).trans_le h₄.row.le
  case h_4 => exact .pure (h₁.sees hs)

/-! ## Operators before an operand -/

theorem runs_yieldOperand (f : Frame) (e : Extent) {t : Token} {mode : SlashMode}
    (h : r.Good source (limit + 1)) (ht : r.Takes mode t r') :
    (yieldOperand rules f e t).Runs r' fun o => Reads source limit r.cursor [o.node] := by
  have h₁ := ht.good h
  refine .ite (fun _ => .unexpected) fun _ => .ite (fun _ => .refuse) fun _ => ?_
  refine bind_peekIn h₁ fun after r₂ hs => ?_
  extract_lets delegates goesOn
  have hgoesOn {r₃ : Reader} (h₃ : Spans source limit r'.cursor [] r₃) :
      (goesOn ()).Runs r₃ fun o => Reads source limit r.cursor [o.node] :=
    (hr.expression f _ h₃.good).bind fun operand r₄ h₄ =>
      .pure (ht.upTo h (h₃.append h₄.toSpans) rfl nofun)
  refine .ite (fun _ => .pure ?_) fun _ => .ite (fun hdelegates => ?_) fun _ => ?_
  · exact (ht.alone (.yieldExpression false none) h rfl nofun).sees hs
  · have hkind : after.kind = .punctuator .asterisk := by simpa [delegates] using hdelegates
    exact bind_skip hs (hkind ▸ nofun) fun r₃ ht₃ => hgoesOn (ht₃.spans h₁.weaken)
  · exact hgoesOn ((Spans.refl h₁).sees hs)

theorem runs_unaryOperand (f : Frame) (e : Extent) {t : Token} (operator : UnaryOperator)
    {mode : SlashMode} (h : r.Good source (limit + 1)) (ht : r.Takes mode t r') :
    (unaryOperand rules f e t operator).Runs r' fun o => Reads source limit r.cursor [o.node] := by
  refine (hr.expression f _ (ht.good h)).bind fun operand r₁ h₁ => ?_
  have hnode : Reads source limit r.cursor
      [⟨t.span.cover operand.node.span, .unary operator operand.node⟩] r₁ :=
    ht.before h h₁.toSpans rfl nofun
  exact .ite (fun _ => .bind_check fun _ _ => .pure hnode) fun _ => .pure hnode

/-! ## All operands -/

omit hr in
theorem row_markParenthesised {n : Node} {lo hi : Nat} (h : Row source lo [n] hi) :
    Row source lo [markParenthesised n] hi := by
  have hrow := h.nests_one.row
  unfold markParenthesised
  split
  case h_1 isOptional parenthesised callee arguments hshape =>
    rw [hshape] at hrow
    exact h.reshape (.call isOptional true callee arguments) hrow nofun
  case h_2 isOptional parenthesised object subscript hshape =>
    rw [hshape] at hrow
    exact h.reshape (.index isOptional true object subscript) hrow nofun
  case h_3 isOptional parenthesised object name hshape =>
    rw [hshape] at hrow
    exact h.reshape (.member isOptional true object name) hrow nofun
  case h_4 => exact h

theorem runs_parenthesisedOperand (f : Frame) (e : Extent) (h : r.Good source (limit + 1)) :
    (parenthesisedOperand rules f e).Runs r fun o => Reads source limit r.cursor [o.node] := by
  refine (runs_parenthesisedArrow? hr f e false none (.refl h)
    fun parameters r₁ h₁ => .parameters h₁.row).bind fun head r₁ ⟨hsome, hnone⟩ => ?_
  cases head with
  | some operand => exact .pure (hsome operand rfl)
  | none =>
    obtain rfl := hnone rfl
    refine (hr.parenthesised f h.bare).bind fun group r₂ h₂ => ?_
    extract_lets group'
    have hgroup := h₂.of_row (row_markParenthesised h₂.row)
    refine bind_peek h₂.good fun after r₃ hs => .ite (fun _ => ?_) fun _ => .pure (hgroup.sees hs)
    exact .ite (fun _ => .refuse) fun _ => .unexpected

theorem runs_asyncOperand (f : Frame) (e : Extent) {t : Token} {mode : SlashMode}
    (h : r.Good source (limit + 1)) (ht : r.Takes mode t r') :
    (asyncOperand rules f e r.cursor t).Runs r' fun o => Reads source limit r.cursor [o.node] := by
  have h₁ := ht.reads h
  have hname : Reads source limit r.cursor [⟨t.span, .identifier t.text⟩] r' :=
    ht.alone _ h rfl nofun
  refine bind_peek h₁.good fun after r₂ hs => ?_
  have h₂ := h₁.sees hs
  refine .ite (fun _ => .pure (hname.sees hs)) fun _ => ?_
  split
  case h_1 =>
    exact .bind_rewind ((runs_functionExpression hr f h.bare).bind fun _ _ hn => .pure hn)
  case h_2 =>
    refine (runs_parenthesisedArrow? hr f e true (some t.span) h₂.weaken.toSpans
      fun parameters r₃ h₃ => ?_).bind fun o r₃ ⟨hsome, hnone⟩ => .pure ?_
    · exact .token (ht.encloses h) (hs.cursor ▸ h₃.row)
    · cases o with
      | some operand => exact hsome operand rfl
      | none =>
        obtain rfl := hnone rfl
        exact (hname.sees hs).bare
  case h_3 =>
    refine .ite (fun hkind => ?_) fun _ => .pure (hname.sees hs)
    refine bind_next_of_sees h₁.good hs (fun hend => by simp [hend, Kind.isBindingName] at hkind)
      fun r₃ ht₃ => ?_
    exact runs_singleParameterArrow hr f e true (h₁.takes ht₃)
      (.token (ht.encloses h) (row_singleParameter (ht₃.encloses h₁.good)))

theorem runs_nameOperand (f : Frame) (e : Extent) {t : Token} {mode : SlashMode}
    (h : r.Good source (limit + 1)) (ht : r.Takes mode t r') :
    (nameOperand rules f e t).Runs r' fun o => Reads source limit r.cursor [o.node] := by
  refine if_atPunctuator (ht.good h) (fun _ r₁ hs => ?_) fun _ r₁ hs =>
    .bind_check fun _ _ => .pure ?_
  · have hname := row_singleParameter (ht.encloses h)
    exact runs_singleParameterArrow hr f e false ((ht.reads h).sees hs)
      (hs.cursor ▸ .parameters hname)
  · exact (ht.alone (.identifier t.text) h rfl nofun).sees hs

theorem runs_operand (f : Frame) (e : Extent) (h : r.Good source (limit + 1)) :
    (operand rules f e).Runs r fun o => Reads source limit r.cursor [o.node] := by
  refine .bind_mark (bind_nextIn h fun t r₁ hnext hahead => ?_)
  have htakes (hkind : t.kind ≠ .endOfInput) : r.Takes .regex t r₁ := ⟨hnext, hahead, hkind⟩
  split
  case h_1 operator hoperator =>
    have ht := htakes fun hkind => by simp [hkind, Kind.unaryOperator?] at hoperator
    exact runs_unaryOperand hr f e operator h ht
  split
  case h_1 hkind =>
    have ht := htakes (hkind ▸ nofun)
    refine (hr.construct f (ht.good h) (ht.encloses h)).bind fun n r₂ ⟨h₂, hrow⟩ => .pure ?_
    exact ((ht.reads h).skips h₂.toSpans).of_row hrow
  case h_2 hkind => exact runs_asyncOperand hr f e h (htakes (hkind ▸ nofun))
  case h_3 =>
    exact .bind_rewind ((runs_functionExpression hr f h.bare).bind fun _ _ hn => .pure hn)
  case h_4 => exact .bind_rewind ((runs_classExpression hr f h.bare).bind fun _ _ hn => .pure hn)
  case h_5 hkind =>
    exact (runs_importExpression hr f h (htakes (hkind ▸ nofun))).bind fun _ _ hn => .pure hn
  case h_6 hkind =>
    exact (runs_arrayLiteral hr f h (htakes (hkind ▸ nofun))).bind fun _ _ hn => .pure hn
  case h_7 hkind =>
    exact (runs_objectLiteral hr f h (htakes (hkind ▸ nofun))).bind fun _ _ hn => .pure hn
  case h_8 => exact .bind_rewind (runs_parenthesisedOperand hr f e h.bare)
  case h_9 hkind =>
    have ht := htakes (hkind ▸ nofun)
    refine (runs_templateParts hr f (ht.good h) (ht.encloses h)).bind
      fun (parts, span) r₂ ⟨h₂, hspan⟩ => .pure ?_
    exact ((ht.reads h).append h₂).of_row (Encloses.node (.templateLiteral parts) hspan nofun)
  case h_10 =>
    refine .ite (fun hkind => ?_) fun _ => .ite (fun hkind => ?_) fun _ => .ite (fun hkind => ?_)
      fun _ => (runs_simpleOperand f h hnext hahead).bind fun _ _ hn => .pure hn
    · exact runs_unaryOperand hr f e .await h (htakes fun hend => by simp [hend] at hkind)
    · exact runs_yieldOperand hr f e h (htakes fun hend => by simp [hend] at hkind)
    · exact runs_nameOperand hr f e h
        (htakes fun hend => by simp [hend, Kind.isBindingName] at hkind)

/-- A `new` is covered from the word, which stands in front of the cursor. -/
theorem runs_construct (f : Frame) {first : Token} {lo : Nat} (h : r.Good source (limit + 1))
    (hfirst : Encloses source lo first.span [] r.cursor.position) :
    (construct rules f first).Runs r fun n r' => Reads source limit r.cursor [] r' ∧
      Row source lo [n] r'.cursor.position := by
  refine if_tookPunctuator h (fun _ r₁ ht => ?_) fun _ r₁ hs => ?_
  · have h₁ := ht.reads h
    refine bind_metaName h₁.good fun name r₂ hname => .pure ⟨h₁.takes hname, ?_⟩
    exact Encloses.node .newTarget (hfirst.between h₁.row (hname.encloses h₁.good)) nofun
  have h₁ := (Spans.refl h).sees hs
  extract_lets goesOn
  have hgoesOn {inner : Node} {r₂ : Reader} (h₂ : Reads source limit r.cursor [inner] r₂) :
      (goesOn inner).Runs r₂ fun n r' => Reads source limit r.cursor [] r' ∧
        Row source lo [n] r'.cursor.position := by
    refine (runs_constructorAccesses hr f h₂).bind fun callee r₃ h₃ => ?_
    refine if_tookPunctuator h₃.good (fun _ r₄ ht => ?_) fun _ r₄ hs => .pure ⟨?_, ?_⟩
    · have h₄ := h₃.takes ht
      refine (runs_arguments hr f h₄.good).bind fun arguments r₅ h₅ => ?_
      have h₅ := h₄.append h₅
      refine bind_expectPunctuator h₅.good fun close r₆ hclose => .pure ⟨?_, ?_⟩
      · exact (h₅.takes hclose).of_row (.nil (h₅.takes hclose).row.le)
      · exact Encloses.node (.construct callee arguments)
          (hfirst.between h₅.row (hclose.encloses h₅.good)) nofun
    · exact (h₃.sees hs).of_row (.nil (h₃.sees hs).row.le)
    · exact Encloses.node (.construct callee []) (hfirst.upTo (h₃.sees hs).row) nofun
  refine bind_takeIf h₁.good rfl (fun t r₂ _ ht => ?_) fun _ r₂ hs₂ => ?_
  · have h₂ := h₁.reads (ht.reads h₁.good)
    refine (hr.construct f h₂.good (ht.encloses h₁.good)).bind fun inner r₃ ⟨h₃, hrow⟩ => ?_
    exact hgoesOn ((h₂.skips h₃.toSpans).of_row (hs.cursor ▸ hrow))
  · have h₂ := h₁.sees hs₂
    exact (runs_operand hr f _ h₂.good).bind fun inner r₃ h₃ =>
      .bind_pure (hgoesOn (h₂.reads h₃))

end ScriptMin.Grammar
