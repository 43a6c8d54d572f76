import ScriptMin.Grammar.Class
import ScriptMin.Proofs.Reading.Function
import ScriptMin.Proofs.Reading.Pattern

/-!
# What members and classes read

Members of classes and of object literals end, and their nodes nest. A member that is nothing but a
name ends with it.
-/

namespace ScriptMin.Grammar

open Source Parse Reader

variable {source : List Char} {limit : Nat} {r r' : Reader}

/-! ## Modifiers -/

theorem runs_modifier (host : MemberHost) (h : r.Good source limit) :
    (modifier host).Runs r fun _ => Spans source limit r.cursor [] := by
  refine .bind_mark ((runs_takeIf_spans h rfl).bind ?_)
  rintro first r₁ (⟨t, rfl, ht⟩ | ⟨rfl, hs⟩)
  · have h₁ := ht.spans h.weaken
    simp only [Option.bind_some]
    split
    case h_1 => exact .pure h₁
    case h_2 m hm =>
      refine bind_peek h₁.good fun after r₂ hs => .ite (fun _ => ?_) fun _ => .pure (h₁.sees hs)
      exact .bind_rewind (.pure (.refl h.bare))
  · exact .pure hs

theorem runs_staticModifier (h : r.Good source limit) :
    staticModifier.Runs r fun _ => Spans source limit r.cursor [] := by
  refine .bind_mark (if_tookWord h (fun t r₁ ht => ?_) fun t r₁ hs => ?_)
  · have h₁ := ht.spans h.weaken
    refine bind_peek h₁.good fun after r₂ hs => ?_
    split
    case h_5 => exact .pure (h₁.sees hs)
    all_goals exact .bind_rewind (.pure (.refl h.bare))
  · exact .pure ((Spans.refl h).sees hs)

/-- The value stands behind a key, with which a property without a value ends. -/
def ValueSpans (source : List Char) (limit : Nat) (c : Cursor) (v : MemberValue Node) (r : Reader) :
    Prop :=
  Spans source limit c v.children r ∧ (v = .property none → r.cursor = c)

variable {rules : Rules} (hr : rules.Proceeds source limit)

include hr

/-! ## Values -/

theorem runs_getter (f : Frame) (h : r.Good source limit) :
    (getter rules f).Runs r (ValueSpans source limit r.cursor) := by
  refine bind_expectPunctuator h fun _ r₁ ht₁ => ?_
  have h₁ := ht₁.spans h.weaken
  refine bind_expectPunctuator h₁.good fun _ r₂ ht₂ => ?_
  have h₂ := h₁.takes ht₂
  exact (runs_functionBody hr _ h₂.good.weaken).bind fun (body, _) r₃ h₃ =>
    .pure ⟨h₂.append h₃.toSpans, nofun⟩

theorem runs_setter (f : Frame) (h : r.Good source limit) :
    (setter rules f).Runs r (ValueSpans source limit r.cursor) := by
  refine bind_expectPunctuator h fun _ r₁ ht₁ => ?_
  have h₁ := ht₁.spans h.weaken
  refine (hr.pattern _ _ h₁.good).bind fun parameter r₂ hparameter => ?_
  have h₂ := h₁.append hparameter.toSpans
  refine bind_expectPunctuator h₂.good fun _ r₃ ht₃ => ?_
  have h₃ := h₂.takes ht₃
  exact (runs_functionBody hr _ h₃.good.weaken).bind fun (body, _) r₄ h₄ =>
    .bind_check fun _ _ => .pure ⟨h₃.append h₄.toSpans, nofun⟩

theorem runs_method (f : Frame) (isAsync generator : Bool) (h : r.Good source limit) :
    (method rules f isAsync generator).Runs r (ValueSpans source limit r.cursor) :=
  (runs_functionParts hr _ _ _ h.weaken).bind fun _ _ hparts => .pure ⟨hparts.toSpans, nofun⟩

theorem runs_property (f : Frame) (host : MemberHost) (first : Token) (key : Key Node)
    (h : r.Good source limit) :
    (property rules f host first key).Runs r (ValueSpans source limit r.cursor) := by
  unfold property
  extract_lets bare extent read
  have hread {isBare : Bool} {r₁ : Reader} (h₁ : Spans source limit r.cursor [] r₁)
      (hcursor : isBare → r₁.cursor = r.cursor) :
      (read isBare).Runs r₁ (ValueSpans source limit r.cursor) := by
    refine .ite (fun hbare => ?_) fun _ => ?_
    · have hbare : (bare ()).Runs r₁ (ValueSpans source limit r.cursor) :=
        .pure ⟨h₁, fun _ => hcursor hbare⟩
      refine .ite (fun _ => .ite (fun _ => ?_) fun _ => ?_) fun _ => hbare
      · exact .bind_check fun _ _ => hbare
      · exact bind_peek h₁.good fun _ _ _ => .bind_unexpected
    · refine bind_expectPunctuator h₁.good fun _ r₂ ht => ?_
      have h₂ := h₁.takes ht
      cases host with
      | object =>
        exact (hr.expression _ _ h₂.good).bind fun _ _ hx => .pure ⟨h₂.append hx.toSpans, nofun⟩
      | classBody =>
        exact (hr.expression _ _ h₂.good).bind fun _ _ hx => .pure ⟨h₂.append hx.toSpans, nofun⟩
  cases key with
  | direct name =>
    exact bind_peek h fun _ r₁ hs => .bind_pure (hread ((Spans.refl h).sees hs) fun _ => hs.cursor)
  | computed e => exact .bind_pure (hread (.refl h) fun _ => rfl)

/-! ## Members -/

/-- A member stands between the cursor and the reader. One that is only a name ends with it. -/
def MemberReads (source : List Char) (limit : Nat) (c : Cursor) (key : Key Node)
    (value : MemberValue Node) (r : Reader) : Prop :=
  Reads source limit c (key.children ++ value.children) r ∧
    ∀ name, key = .direct name → value = .property none →
      Span.EndsWith source ⟨c.position, r.cursor.position⟩ name

theorem runs_member (f : Frame) (host : MemberHost) (h : r.Good source (limit + 1)) :
    (member rules f host).Runs r fun (key, value) =>
      MemberReads source limit r.cursor key value := by
  refine (runs_modifier host h).bind fun modifier r₁ h₁ => ?_
  extract_lets named
  have hnamed {r₂ : Reader} (h₂ : Spans source (limit + 1) r.cursor [] r₂) :
      (named ()).Runs r₂ fun (key, value) => MemberReads source limit r.cursor key value := by
    refine (runs_tookPunctuator h₂.good).bind fun generator r₃ h₃ => ?_
    have h₃ := h₂.append h₃
    refine bind_peek h₃.good fun first r₄ hs => ?_
    have h₄ := h₃.sees hs
    obtain ⟨after, hfirst, rfl⟩ := hs
    have hlexed := h₃.good.standsIn.lexed hfirst
    refine (runs_key hr f h₄.good hfirst).bind fun key r₅ ⟨h₅, hkey, hdirect⟩ => ?_
    have hkey : Reads source limit r.cursor key.children r₅ :=
      (h₄.reads h₅).of_row (hkey.mono (h₄.row.le.trans hlexed.encloses.le) le_rfl)
    -- what follows the key makes a member of it
    have hvalue {read : Parse (MemberValue Node)} {r₆ : Reader} (h₆ : r₆.cursor = r₅.cursor)
        (hread : read.Runs r₆ (ValueSpans source limit r₆.cursor)) :
        (read >>= fun v => pure (key, v)).Runs r₆ fun (key, value) =>
          MemberReads source limit r.cursor key value := by
      refine hread.bind fun value r₇ ⟨h₇, hbare⟩ => .pure ⟨hkey.append (h₆ ▸ h₇), ?_⟩
      rintro name rfl rfl
      obtain ⟨rfl, hafter⟩ := hdirect name rfl
      have hcursor : r₇.cursor = after := (hbare rfl).trans (h₆.trans hafter)
      exact hcursor ▸ hlexed.endsWith.mono (h₄.row.le.trans hlexed.encloses.lo_le) hlexed.stop.symm
    cases modifier with
    | some m =>
      cases m with
      | getter => exact hvalue rfl (runs_getter hr f h₅.good)
      | setter => exact hvalue rfl (runs_setter hr f h₅.good)
      | isAsync => exact hvalue rfl (runs_method hr f true generator h₅.good)
    | none =>
      cases generator with
      | true => exact hvalue rfl (runs_method hr f false true h₅.good)
      | false =>
        refine bind_atPunctuator h₅.good fun isMethod _ r₆ hs => ?_
        have h₆ := hs.good h₅.good
        cases isMethod with
        | true => exact hvalue hs.cursor (runs_method hr f false false h₆)
        | false => exact hvalue hs.cursor (runs_property hr f host first key h₆)
  refine .ite (fun _ => if_atPunctuator h₁.good (fun _ r₂ hs => ?_) fun _ r₂ hs => ?_)
    fun _ => hnamed h₁
  · exact bind_peek (hs.good h₁.good) fun _ _ _ => .bind_unexpected
  · exact hnamed (h₁.sees hs)

/-! ## Classes -/

theorem runs_classBody (f : Frame) (h : r.Good source limit) :
    (classBody rules f).Runs r fun (members, close) r' =>
      ∃ r₁, Spans source limit r.cursor (members.flatMap ClassMember.children) r₁ ∧
        r₁.Takes .division close r' := by
  refine bind_expectPunctuator h fun _ r₁ ht => ?_
  have h₁ := ht.spans h.weaken
  refine .bind (Runs.loop
    (I := fun read => Spans source limit r.cursor (read.reverse.flatMap ClassMember.children))
    (Q := fun read => Spans source limit r.cursor (read.reverse.flatMap ClassMember.children))
    (fun _ _ h => h.good) (fun read r₂ h₂ => ?_) hr.bound h₁) fun reversed r₂ h₂ => ?_
  · refine if_atPunctuator h₂.good (fun _ r₃ hs => .pure (h₂.sees hs)) fun _ r₃ hs => ?_
    have h₃ := h₂.sees hs
    refine if_tookPunctuator h₃.good (fun _ r₄ ht => .pure ⟨h₃.takes ht, ?_⟩) fun _ r₄ hs₄ => ?_
    · exact hs.cursor ▸ ht.lt h₃.good
    have h₄ := h₃.sees hs₄
    refine (runs_staticModifier h₄.good).bind fun isStatic r₅ h₅ => ?_
    refine (runs_member hr f .classBody h₅.good.weaken).bind fun (key, value) r₆ h₆ => ?_
    have hmember := h₅.reads h₆.1
    refine (runs_tookPunctuator hmember.good).bind fun _ r₇ h₇ => .pure ⟨?_, ?_⟩
    · exact (h₄.snocParts (x := ⟨key, isStatic, value⟩) hmember.toSpans).skips h₇
    · exact hs.cursor ▸ hs₄.cursor ▸ (hmember.skips h₇).lt h₄.good
  · exact bind_expectPunctuator h₂.good fun close r₃ hclose => .pure ⟨r₂, h₂, hclose⟩

theorem runs_classFrom (f : Frame) (needsName : Bool)
    {shape : Option Node → Option Node → List (ClassMember Node) → Shape Node}
    (hshape : ∀ name parent members, (shape name parent members).children =
      name.toList ++ parent.toList ++ members.flatMap ClassMember.children)
    (hshort : ∀ name parent members, (shape name parent members).shorthand? = none)
    (h : r.Good source (limit + 1)) :
    (classFrom rules f needsName shape).Runs r fun n => Reads source limit r.cursor [n] := by
  refine bind_expectWord h fun first r₁ ht => ?_
  extract_lets f
  refine (runs_definitionName (ht.good h)).bind fun name r₂ h₂ => ?_
  extract_lets withBody withHeritage
  have hbody {parent : Option Node} {r' : Reader}
      (h' : Spans source limit r₁.cursor ((name.map definitionNode).toList ++ parent.toList) r') :
      (withBody parent).Runs r' fun n => Reads source limit r.cursor [n] := by
    refine (runs_classBody hr f h'.good).bind ?_
    rintro ⟨members, close⟩ r₄ ⟨r₃, h₃, hclose⟩
    refine .pure (ht.bracketed h ?_ hclose (by simp [hshort]))
    rw [hshape]
    exact h'.append h₃
  have hheritage {r' : Reader}
      (h' : Spans source limit r₁.cursor (name.map definitionNode).toList r') :
      (withHeritage ()).Runs r' fun n => Reads source limit r.cursor [n] := by
    refine if_tookWord h'.good (fun _ r₃ ht => ?_) fun _ r₃ hs => .bind_pure ?_
    · have h₃ := h'.takes ht
      exact (hr.whole f _ h₃.good).bind fun parent r₄ h₄ =>
        .bind_pure (hbody (h₃.append h₄.toSpans))
    · exact hbody (by simpa using h'.sees hs)
  cases name with
  | some t => exact .bind_check fun _ _ => hheritage h₂
  | none =>
    exact .ite (fun _ => bind_peek h₂.good fun _ _ _ => .bind_unexpected) fun _ => hheritage h₂

theorem runs_classExpression (f : Frame) (h : r.Good source (limit + 1)) :
    (classExpression rules f).Runs r fun n => Reads source limit r.cursor [n] :=
  runs_classFrom hr f false (fun _ _ _ => rfl) (fun _ _ _ => rfl) h

theorem runs_classDeclaration (f : Frame) (needsName : Bool) (h : r.Good source (limit + 1)) :
    (classDeclaration rules f needsName).Runs r fun n => Reads source limit r.cursor [n] :=
  runs_classFrom hr f needsName (fun _ _ _ => rfl) (fun _ _ _ => rfl) h

end ScriptMin.Grammar
