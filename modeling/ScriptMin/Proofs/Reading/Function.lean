import ScriptMin.Grammar.Function
import ScriptMin.Proofs.Reading.Rules

/-!
# What functions read

Parameters, bodies and functions end, and their nodes nest.
-/

namespace ScriptMin.Grammar

open Source Parse Reader

variable {source : List Char} {limit bound : Nat} {r r' : Reader}

/-- The node of a directive. -/
def directiveNode (t : Token) : Node := ⟨t.span, .directive t.text⟩

/-- What is no directive is left. -/
theorem runs_directive (h : r.Good source limit) :
    directive.Runs r fun o r' =>
      Spans source limit r.cursor (o.toList.flatMap fun t => [directiveNode t]) r' ∧
        (o.isSome → r.cursor.Passes r'.cursor.position) := by
  refine .bind_mark (bind_nextIn h fun t r₁ hnext hahead => ?_)
  extract_lets goesOn
  -- a token that is no directive is given back
  have hleft {r' : Reader} : (goesOn false).Runs r' fun o r' =>
      Spans source limit r.cursor (o.toList.flatMap fun t => [directiveNode t]) r' ∧
        (o.isSome → r.cursor.Passes r'.cursor.position) :=
    .bind_rewind (.pure ⟨.refl h.bare, nofun⟩)
  refine .ite (fun _ => hleft) fun hkind => ?_
  have ht : r.Takes .division t r₁ := ⟨hnext, hahead, fun h => by simp [h] at hkind⟩
  have h₁ : Reads source limit r.cursor [directiveNode t] r₁ :=
    ht.alone (.directive t.text) h.weaken rfl nofun
  have hgoesOn {ends : Bool} {r' : Reader} (h' : Reads source limit r.cursor [directiveNode t] r') :
      (goesOn ends).Runs r' fun o r' =>
        Spans source limit r.cursor (o.toList.flatMap fun t => [directiveNode t]) r' ∧
          (o.isSome → r.cursor.Passes r'.cursor.position) := by
    cases ends with
    | true => exact .pure ⟨h'.toSpans, fun _ => h'.passes⟩
    | false => exact hleft
  refine bind_peek h₁.good fun after r₂ hs => ?_
  have h₂ := h₁.sees hs
  split
  case h_1 hsemicolon =>
    exact bind_skip hs (hsemicolon ▸ nofun) fun r₃ hskip =>
      .bind_pure (hgoesOn (h₁.takes hskip))
  all_goals exact .bind_pure (hgoesOn h₂)

theorem runs_prologue (hbound : limit ≤ bound) (strict : Bool) (h : r.Good source limit) :
    (prologue bound strict).Runs r fun (directives, _) =>
      Spans source limit r.cursor directives := by
  refine (runs_collect (fun _ => runs_directive) hbound h).bind fun directives r₁ h₁ => .pure ?_
  rwa [← List.map_eq_flatMap] at h₁

variable {rules : Rules} (hr : rules.Proceeds source limit)

include hr

/-! ## Parameters and bodies -/

theorem runs_signature (f : Frame) (h : r.Good source (limit + 1)) :
    (signature rules f).Runs r fun n => Reads source limit r.cursor [n] := by
  refine .bind_mark (bind_expectPunctuator h fun t r₁ ht => ?_)
  refine .bind (Runs.loop
    (I := fun read => Spans source limit r₁.cursor read.reverse)
    (Q := fun read => Spans source limit r₁.cursor read.reverse)
    (fun _ _ h => h.good) (fun read r₂ h₂ => ?_) hr.bound (.refl (ht.good h)))
    fun reversed r₂ h₂ => .bind_spanFrom (.pure ?_)
  · refine .bind_mark (if_tookPunctuator h₂.good (fun _ r₃ hclose => .pure (h₂.takes hclose))
      fun _ r₃ hs => ?_)
    refine (runs_tookPunctuator (h₂.sees hs).good).bind fun isRest r₄ h₄ => ?_
    refine (hr.pattern _ _ h₄.good).bind fun pattern r₅ h₅ => ?_
    refine (hr.fallback _ _ h₅.good).bind fun fallback r₆ h₆ => .bind_spanFrom ?_
    have hparts := ((((Spans.refl h₂.good).sees hs).append h₄).reads h₅).append h₆
    have hread := h₂.snoc
      (hparts.node (.parameter isRest pattern fallback) h₂.good rfl nofun).toSpans
    extract_lets read goesOn
    have hgoesOn (more : Bool) {r' : Reader} (h' : Spans source limit r₆.cursor [] r') :
        (goesOn more).Runs r' (Collects source limit r₁.cursor r₂.cursor.position) := by
      have hrow : Spans source limit r₁.cursor read.reverse r' :=
        hread.skips h'
      exact .ite (fun _ => .pure ⟨hrow, (hparts.lt h₂.good).trans_le h'.row.le⟩) fun _ =>
        bind_expectPunctuator hrow.good fun _ r₇ hclose => .pure (hrow.takes hclose)
    refine .ite (fun _ => hgoesOn false (.refl h₆.good)) fun _ => ?_
    exact (runs_tookPunctuator h₆.good).bind fun more _ h' => hgoesOn more h'
  · exact ((ht.reads h).append h₂).node (.signature _) h rfl nofun

theorem runs_statements (f : Frame) (h : r.Good source limit) :
    (statements rules f).Runs r fun (body, close) r' =>
      ∃ r₁, Spans source limit r.cursor body r₁ ∧ r₁.Takes .division close r' := by
  refine .bind (Runs.loop
    (I := fun read => Spans source limit r.cursor read.reverse)
    (Q := fun (read, close) r' =>
      ∃ r₁, Spans source limit r.cursor read.reverse r₁ ∧ r₁.Takes .division close r')
    (fun _ _ h => h.good) (fun read r₁ h₁ => ?_) hr.bound (.refl h)) fun _ _ hread => .pure hread
  refine bind_takeIf h₁.good rfl (fun close r₂ _ ht => .pure ⟨r₁, h₁, ht⟩) fun _ r₂ hs => ?_
  have h₂ := h₁.sees hs
  exact (hr.statement f h₂.good).bind fun n r₃ hn =>
    .pure ⟨h₂.snoc hn.toSpans, hs.cursor ▸ hn.lt h₂.good⟩

theorem runs_functionBody (f : Frame) (h : r.Good source (limit + 1)) :
    (functionBody rules f).Runs r fun (body, _) => Reads source limit r.cursor [body] := by
  refine bind_expectPunctuator h fun first r₁ ht => ?_
  refine (runs_prologue hr.bound f.strict (ht.good h)).bind fun (directives, strict) r₂ h₂ => ?_
  refine (runs_statements hr _ h₂.good).bind ?_
  rintro ⟨body, close⟩ r₄ ⟨r₃, h₃, hclose⟩
  exact .pure (ht.bracketed h (h₂.append h₃) hclose nofun)

theorem runs_functionParts (outer inner : Frame) (unique : Bool) (h : r.Good source (limit + 1)) :
    (functionParts rules outer inner unique).Runs r fun parts =>
      Reads source limit r.cursor [parts.parameters, parts.body] := by
  refine (runs_signature hr inner h).bind fun parameters r₁ h₁ => ?_
  refine (runs_functionBody hr inner h₁.good.weaken).bind fun (body, strict) r₂ h₂ => ?_
  exact .bind_check fun _ _ => .pure (h₁.append h₂.toSpans)

/-! ## Functions with their heads -/

omit hr in
/-- The name of a function or class, which may be missing. -/
theorem runs_definitionName (h : r.Good source limit) :
    (takeIf Kind.isBindingName).Runs r fun name =>
      Spans source limit r.cursor (name.map definitionNode).toList := by
  refine (runs_takeIf_spans h rfl).mono ?_
  rintro _ r' (⟨t, rfl, ht⟩ | ⟨rfl, hs⟩)
  · exact (ht.alone (.definitionName t.text) h.weaken rfl nofun).toSpans
  · exact hs

theorem runs_functionFrom (f : Frame) {checkName : Bool → Option Token → Parse Unit}
    {shape : Bool → Bool → Option Node → Node → Node → Shape Node}
    (hname : ∀ generator name {r : Reader}, r.Good source limit →
      (checkName generator name).Runs r fun _ => Spans source limit r.cursor [])
    (hshape : ∀ isAsync generator name parameters body,
      (shape isAsync generator name parameters body).children = name.toList ++ [parameters, body])
    (hshort : ∀ isAsync generator name parameters body,
      (shape isAsync generator name parameters body).shorthand? = none)
    (h : r.Good source (limit + 1)) :
    (functionFrom rules f checkName shape).Runs r fun n => Reads source limit r.cursor [n] := by
  refine .bind_mark ((runs_tookWord h).bind fun isAsync r₁ h₁ => ?_)
  refine bind_expectWord h₁.good fun t r₂ ht => ?_
  have h₂ := h₁.reads (ht.reads h₁.good)
  refine (runs_tookPunctuator h₂.good).bind fun generator r₃ h₃ => ?_
  refine (runs_definitionName h₃.good).bind fun name r₄ h₄ => ?_
  refine (hname generator name h₄.good).bind fun _ r₅ h₅ => ?_
  refine (runs_functionParts hr f _ _ h₅.good.weaken).bind fun parts r₆ h₆ => ?_
  refine .bind_check fun _ _ => .bind_spanFrom (.pure ?_)
  exact (((h₂.skips h₃).append (h₄.skips h₅)).append h₆.toSpans).node _ h (hshape ..)
    (by simp [hshort])

theorem runs_functionExpression (f : Frame) (h : r.Good source (limit + 1)) :
    (functionExpression rules f).Runs r fun n => Reads source limit r.cursor [n] := by
  refine runs_functionFrom hr f (fun generator name r h => ?_) (fun _ _ _ _ _ => rfl)
    (fun _ _ _ _ _ => rfl) h
  cases name with
  | some t => exact .check fun _ _ => .refl h
  | none => exact .pure (.refl h)

theorem runs_functionDeclaration (f : Frame) (needsName : Bool) (h : r.Good source (limit + 1)) :
    (functionDeclaration rules f needsName).Runs r fun n => Reads source limit r.cursor [n] := by
  refine runs_functionFrom hr f (fun generator name r h => ?_) (fun _ _ _ _ _ => rfl)
    (fun _ _ _ _ _ => rfl) h
  cases name with
  | some t => exact .check fun _ _ => .refl h
  | none => exact .ite (fun _ => bind_peek h fun _ _ _ => .unexpected) fun _ => .pure (.refl h)

end ScriptMin.Grammar
