import ScriptMin.Grammar.Loop
import ScriptMin.Proofs.Reading.Target
import ScriptMin.Proofs.Reading.Rules

/-!
# What declarations of variables and loops read

Variables, the heads of loops and the loops end, and their nodes nest.
-/

namespace ScriptMin.Grammar

open Source Parse Reader

variable {source : List Char} {limit : Nat} {r r' : Reader}

/-! ## Lookaheads -/

theorem runs_startsVariables (h : r.Good source limit) :
    startsVariables.Runs r fun _ => Spans source limit r.cursor [] := by
  refine bind_peek h fun t r₁ hs => ?_
  have h₁ := (Spans.refl h).sees hs
  split
  case h_1 | h_2 | h_4 => exact .pure h₁
  case h_3 => exact bind_peekSecond h₁.good fun _ => .pure (hs.cursor ▸ .refl h.bare)

theorem runs_startsAsyncFunction (h : r.Good source limit) :
    startsAsyncFunction.Runs r fun _ => Spans source limit r.cursor [] := by
  refine bind_peek h fun t r₁ hs => ?_
  have h₁ := (Spans.refl h).sees hs
  exact .ite (fun _ => bind_peekSecond h₁.good fun _ => .pure (hs.cursor ▸ .refl h.bare))
    fun _ => .pure h₁

/-! ## Variables -/

/-- A further declarator stands behind a comma. -/
theorem runs_continuesVariables (place : VariablesPlace) (inserted : Bool)
    (h : r.Good source limit) :
    (continuesVariables place inserted).Runs r fun _ => Spans source limit r.cursor [] := by
  cases place with
  | loopHead => exact runs_tookPunctuator h
  | statement =>
    refine (runs_tookPunctuator h).bind fun ended r₁ h₁ => .ite (fun _ => .pure h₁) fun _ => ?_
    refine bind_peek h₁.good fun t r₂ hs => ?_
    have h₂ := h₁.sees hs
    exact .ite (fun _ => .pure h₂) fun _ =>
      bind_expectPunctuator h₂.good fun _ r₃ ht => .pure (h₂.takes ht)

/-- The span is covered from the first token on, declarator by declarator. -/
theorem encloses_declarators {source : List Char} {lo hi : Nat} {s : Span}
    {ds : List (Declarator Node)} {xs : List Node} (h : Encloses source lo s xs hi) {hi' : Nat}
    (hds : Row source hi (ds.flatMap Declarator.children) hi') :
    Encloses source lo (ds.foldl coverDeclarator s) (xs ++ ds.flatMap Declarator.children) hi' := by
  induction ds generalizing s xs hi with
  | nil => simpa using h.mono le_rfl hds.le
  | cons d ds ih =>
    rw [List.flatMap_cons] at hds
    obtain ⟨mid, hd, hds⟩ := hds.split
    have hone : Encloses source lo (coverDeclarator s d) (xs ++ d.children) mid := by
      obtain ⟨pattern, initializer⟩ := d
      cases initializer with
      | none => exact h.upTo hd
      | some value =>
        simpa [Declarator.children, coverDeclarator] using (h.upTo hd.head).upTo hd.tail
    simpa using ih hone hds

variable {rules : Rules} (hr : rules.Proceeds source limit)

include hr

theorem runs_declarator (f : Frame) (place : VariablesPlace) (h : r.Good source limit) :
    (declarator rules f place).Runs r fun (d, _) => Reads source limit r.cursor d.children := by
  refine (hr.pattern f _ h).bind fun pattern r₁ h₁ => ?_
  refine if_tookPunctuator h₁.good (fun _ r₂ ht => ?_) fun _ r₂ hs => .pure (h₁.sees hs)
  have h₂ := h₁.takes ht
  exact (hr.expression f _ h₂.good).bind fun value r₃ h₃ => .pure (h₂.append h₃.toSpans)

theorem runs_variableDeclaration (f : Frame) (place : VariablesPlace)
    (h : r.Good source (limit + 1)) :
    (variableDeclaration rules f place).Runs r fun n => Reads source limit r.cursor [n] := by
  refine bind_next h fun first r₁ hnext hahead => ?_
  split
  case h_1 => exact .unexpected
  case h_2 kind hkind =>
    have ht : r.Takes .division first r₁ :=
      ⟨hnext, hahead, fun h => by simp [h, variableKind?] at hkind⟩
    refine .bind (Runs.loop
      (I := fun read => Spans source limit r₁.cursor (read.reverse.flatMap Declarator.children))
      (Q := fun read => Spans source limit r₁.cursor (read.reverse.flatMap Declarator.children))
      (fun _ _ h => h.good) (fun read r₂ h₂ => ?_) hr.bound (.refl (ht.good h)))
      fun reversed r₂ h₂ => ?_
    · refine (runs_declarator hr f place h₂.good).bind fun (d, inserted) r₃ h₃ => ?_
      refine (runs_continuesVariables place inserted h₃.good).bind fun continues r₄ h₄ => ?_
      have hread := (h₂.snocParts h₃.toSpans).skips h₄
      exact .ite (fun _ => .pure ⟨hread, (h₃.skips h₄).lt h₂.good⟩) fun _ => .pure hread
    · extract_lets declarators
      refine .pure (((ht.reads h).append h₂).of_row
        (Encloses.node (.variableDeclaration _ _) ?_ nofun))
      exact encloses_declarators (ht.encloses h) h₂.row

/-! ## Loops -/

omit hr in
/-- What stands first in the head of a loop. -/
def HeadStart.children : HeadStart → List Node
  | .declaration n | .expression n => [n]
  | .nothing => []

theorem runs_headStart (f : Frame) (h : r.Good source limit) :
    (headStart rules f).Runs r fun start => Spans source limit r.cursor start.children := by
  refine (runs_startsVariables h).bind fun starts r₁ h₁ => .ite (fun _ => ?_) fun _ => ?_
  · exact (runs_variableDeclaration hr f .loopHead h₁.good.weaken).bind fun n r₂ h₂ =>
      .pure (h₁.append h₂.toSpans)
  · refine if_atPunctuator h₁.good (fun _ r₂ hs => .pure (h₁.sees hs)) fun _ r₂ hs => ?_
    have h₂ := h₁.sees hs
    exact (hr.expression f _ h₂.good).bind fun x r₃ h₃ => .pure (h₂.append h₃.toSpans)

omit hr in
theorem row_forTarget {t : Token} {start : HeadStart} {lo hi : Nat}
    (h : Row source lo start.children hi) :
    (forTarget t start).Runs r fun target r' => r' = r ∧ Row source lo [target.child] hi := by
  cases start with
  | nothing => exact .unexpected
  | declaration n =>
    simp only [forTarget]
    split
    case h_1 => exact .pure ⟨rfl, h⟩
    case h_2 => exact .unexpected
  | expression n =>
    exact .bind_check fun target htarget => .pure ⟨rfl, row_assignmentTarget h htarget⟩

theorem runs_eachHead (f : Frame) (awaits : Bool) {start : HeadStart} {c : Cursor} {t : Token}
    (h : Spans source limit c start.children r) (hs : r.Sees .division t r')
    (hkind : t.kind ≠ .endOfInput) :
    (eachHead rules f awaits start).Runs r' fun head => Spans source limit c head.children := by
  refine bind_next_of_sees h.good hs hkind fun r₁ ht => ?_
  have h₁ := h.takes ht
  extract_lets isOf
  refine .ite (fun _ => .unexpected) fun _ => (row_forTarget h₁.row).bind ?_
  rintro target _ ⟨rfl, htarget⟩
  have h₂ := h₁.of_row htarget
  extract_lets goesOn
  have hgoesOn {subject : Node} {r₃ : Reader}
      (h₃ : Spans source limit c [target.child, subject] r₃) :
      (goesOn subject).Runs r₃ fun head => Spans source limit c head.children :=
    bind_expectPunctuator h₃.good fun _ r₄ ht => .pure (h₃.takes ht)
  refine .ite (fun _ => ?_) fun _ => ?_
  · exact (hr.single f _ h₂.good).bind fun _ _ hx => hgoesOn (h₂.append hx.toSpans)
  · exact (hr.whole f _ h₂.good).bind fun _ _ hx => hgoesOn (h₂.append hx.toSpans)

theorem runs_optionalPart (f : Frame) (stop : Punctuator) (h : r.Good source limit) :
    (optionalPart rules f stop).Runs r fun o => Spans source limit r.cursor o.toList := by
  refine if_tookPunctuator h (fun _ r₁ ht => .pure (ht.spans h.weaken)) fun _ r₁ hs => ?_
  have h₁ := (Spans.refl h).sees hs
  refine (hr.whole f stop h₁.good).bind fun value r₂ h₂ => ?_
  exact bind_expectPunctuator h₂.good fun _ r₃ ht => .pure (h₁.append (h₂.takes ht).toSpans)

theorem runs_steppedHead (f : Frame) {start : HeadStart} {c : Cursor}
    (h : Spans source limit c start.children r) :
    (steppedHead rules f start).Runs r fun head => Spans source limit c head.children := by
  refine bind_expectPunctuator h.good fun _ r₁ ht => ?_
  have h₁ := h.takes ht
  extract_lets init
  have hinit : init.children = start.children := by cases start <;> rfl
  refine (runs_optionalPart hr f _ h₁.good).bind fun condition r₂ h₂ => ?_
  refine (runs_optionalPart hr f _ h₂.good).bind fun post r₃ h₃ => .pure ?_
  show Spans source limit c (init.children ++ condition.toList ++ post.toList) r₃
  exact hinit.symm ▸ (h₁.append h₂).append h₃

theorem runs_forHead (f : Frame) (awaits : Bool) (h : r.Good source limit) :
    (forHead rules f awaits).Runs r fun head => Spans source limit r.cursor head.children := by
  refine bind_expectPunctuator h fun _ r₁ ht => ?_
  have h₁ := ht.spans h.weaken
  refine (runs_headStart hr f h₁.good).bind fun start r₂ h₂ => ?_
  have h₂ := h₁.append h₂
  refine bind_peek h₂.good fun t r₃ hs => ?_
  have h₃ := h₂.sees hs
  refine .ite (fun hkind => runs_eachHead hr f awaits h₂ hs fun hend => by simp [hend] at hkind)
    fun _ => .ite (fun _ => .unexpected) fun _ => runs_steppedHead hr f h₃

theorem runs_forLoop (f : Frame) (h : r.Good source (limit + 1)) :
    (forLoop rules f).Runs r fun n => Reads source limit r.cursor [n] := by
  refine bind_expectWord h fun first r₁ ht => ?_
  have h₁ := ht.good h
  refine bind_peek h₁ fun t r₂ hs => ?_
  extract_lets awaits headed goesOn
  have hheaded {r' : Reader} (h' : Spans source limit r₁.cursor [] r') :
      (headed ()).Runs r' fun n => Reads source limit r.cursor [n] := by
    refine (runs_forHead hr f awaits h'.good).bind fun head r₃ h₃ => ?_
    refine (hr.statement _ h₃.good).bind fun body r₄ h₄ => .pure ?_
    exact ht.upTo h ((h'.append h₃).append h₄.toSpans) rfl nofun
  refine .ite (fun hawaits => .ite (fun _ => .bind_unexpected) fun _ => ?_)
    fun _ => hheaded ((Spans.refl h₁).sees hs)
  have hkind : t.kind = .word .awaitWord := by simpa [awaits] using hawaits
  exact bind_skip hs (hkind ▸ nofun) fun r₃ ht₃ => hheaded (ht₃.spans h₁.weaken)

theorem runs_whileLoop (f : Frame) (h : r.Good source (limit + 1)) :
    (whileLoop rules f).Runs r fun n => Reads source limit r.cursor [n] := by
  refine bind_expectWord h fun first r₁ ht => ?_
  refine (hr.parenthesised f (ht.good h).weaken).bind fun condition r₂ h₂ => ?_
  refine (hr.statement _ h₂.good).bind fun body r₃ h₃ => .pure ?_
  exact ht.upTo h (h₂.append h₃.toSpans).toSpans rfl nofun

theorem runs_doWhileLoop (f : Frame) (h : r.Good source (limit + 1)) :
    (doWhileLoop rules f).Runs r fun n => Reads source limit r.cursor [n] := by
  refine bind_expectWord h fun first r₁ ht => ?_
  refine (hr.statement _ (ht.good h)).bind fun body r₂ h₂ => ?_
  refine bind_expectWord h₂.good fun _ r₃ ht₃ => ?_
  have h₃ := h₂.takes ht₃
  refine bind_expectPunctuator h₃.good fun _ r₄ ht₄ => ?_
  have h₄ := h₃.takes ht₄
  refine (hr.whole f _ h₄.good).bind fun condition r₅ h₅ => ?_
  have h₅ := h₄.append h₅.toSpans
  refine bind_expectPunctuator h₅.good fun close r₆ hclose => ?_
  have h₆ : Reads source limit r.cursor
      [⟨first.span.cover close.span, .doWhileLoop body condition⟩] r₆ :=
    ht.bracketed h h₅.toSpans hclose nofun
  exact (runs_tookPunctuator h₆.good).bind fun _ r₇ h₇ => .pure (h₆.skips h₇)

end ScriptMin.Grammar
