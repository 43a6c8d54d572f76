import ScriptMin.Grammar.Expression
import ScriptMin.Proofs.Reading.Operand
import ScriptMin.Proofs.Reading.Target

/-!
# What expressions read

An expression goes on from operator to operator. Each of them keeps what was read as the left end of
its node, and passes a token.
-/

namespace ScriptMin.Grammar

open Source Parse Reader

variable {source : List Char} {limit : Nat} {r r' : Reader} {rules : Rules}
  (hr : rules.Proceeds source limit)

include hr

/-- What follows an operator, which was just read. -/
theorem runs_rightOf (f : Frame) (e : Extent) {p : Progress} {operator : Operator} {t t' : Token}
    {c : Cursor} (h : Reads source limit c [p.left] r) (ht : r.Takes .division t r') :
    (rightOf rules f e p operator t').Runs r' fun p r'' => Reads source limit c [p.left] r'' ∧
      r.cursor.position < r''.cursor.position := by
  have h₁ := ht.spans h.good.weaken
  have hlt := ht.lt h.good
  unfold rightOf
  extract_lets right
  have hright : right.Runs r' fun x => Reads source limit r'.cursor [x.node] :=
    hr.expression f _ h₁.good
  cases operator with
  | call isOptional =>
    refine (runs_arguments hr f h₁.good).bind fun arguments r₂ h₂ => ?_
    refine bind_expectPunctuator h₂.good fun close r₃ hclose => .pure ⟨?_, ?_⟩
    · exact h.goesOn (h₁.append h₂) (hclose.encloses h₂.good) (hclose.good h₂.good.weaken)
        (List.append_nil _).symm nofun
    · exact hlt.trans_le (h₂.takes hclose).row.le
  | index isOptional =>
    refine (runs_subscript hr f h₁.good).bind ?_
    rintro ⟨value, close⟩ r₃ ⟨r₂, h₂, hclose⟩
    refine .pure ⟨?_, hlt.trans_le (h₂.takes hclose).row.le⟩
    exact h.goesOn (h₁.append h₂.toSpans) (hclose.encloses h₂.good) (h₂.takes hclose).good rfl nofun
  | member isOptional =>
    refine bind_memberName h₁.good fun name r₂ hname => .pure ⟨?_, ?_⟩
    · exact h.goesOn h₁ (hname.encloses h₁.good) (h₁.takes hname).good rfl nofun
    · exact hlt.trans_le (hname.le h₁.good)
  | conditional =>
    refine (hr.single f _ h₁.good).bind fun consequent r₂ h₂ => ?_
    refine bind_expectPunctuator h₂.good fun _ r₃ ht₃ => ?_
    have h₃ := h₂.takes ht₃
    refine (hr.expression f _ h₃.good).bind fun alternate r₄ h₄ => .pure ⟨?_, ?_⟩
    · exact h.goesOn (h₁.append h₃.toSpans) (.of_node h₄.row) h₄.good rfl nofun
    · exact hlt.trans_le (h₃.append h₄.toSpans).row.le
  | comma =>
    refine hright.bind fun x r₂ h₂ => .pure ⟨?_, hlt.trans_le h₂.row.le⟩
    exact h.covers (Encloses.of_node h.row).row.elements h₁ (.of_node h₂.row) h₂.good
      (by rw [List.append_nil]; rfl) nofun
  | assignment op =>
    refine .bind_check fun target htarget => hright.bind fun x r₂ h₂ => .pure ⟨?_, ?_⟩
    · have htarget := row_assignmentTarget (Encloses.of_node h.row).row htarget
      exact h.covers htarget h₁ (.of_node h₂.row) h₂.good rfl nofun
    · exact hlt.trans_le h₂.row.le
  | binary op =>
    refine hright.bind fun x r₂ h₂ => .pure ⟨?_, hlt.trans_le h₂.row.le⟩
    exact h.goesOn h₁ (.of_node h₂.row) h₂.good rfl nofun
  | unary | postfixed | alternate | construct | yield => exact .unexpected

omit hr in
/-- One more operator, or the end of the expression: what was read is a node either way, and where
another operator may follow, it starts behind `start`. -/
def Operates (source : List Char) (limit : Nat) (c : Cursor) (start : Nat) :
    Round Progress Reading → Reader → Prop :=
  Round.Meets (fun p r => Reads source limit c [p.left] r ∧ start < r.cursor.position)
    fun x => Reads source limit c [x.node]

/-- What does not belong to the expression is given back. -/
theorem runs_operation (f : Frame) (e : Extent) {p : Progress} {c : Cursor}
    (h : Reads source limit c [p.left] r) :
    (operation rules f e p).Runs r (Operates source limit c r.cursor.position) := by
  refine .ite (fun _ => .pure h) fun _ => .bind_mark (bind_next h.good fun t r₁ hnext hahead => ?_)
  have htakes (hkind : t.kind ≠ .endOfInput) : r.Takes .division t r₁ := ⟨hnext, hahead, hkind⟩
  extract_lets leave closing update ends
  have hleave {p' : Progress} {r' : Reader} (hp' : p'.left = p.left) :
      (leave p').Runs r' (Operates source limit c r.cursor.position) :=
    .bind_rewind (.pure (show Reads source limit c [p'.left] _ from hp' ▸ h.bare))
  have hclosing {precedence : Nat} {read : Parse Progress} {r' : Reader}
      (hread : read.Runs r' fun p r'' => Reads source limit c [p.left] r'' ∧
        r.cursor.position < r''.cursor.position) :
      (closing precedence read).Runs r' (Operates source limit c r.cursor.position) :=
    .ite (fun _ => hleave rfl) fun _ => .ite (fun _ => .unexpected) fun _ =>
      hread.bind fun _ _ hp => .pure hp
  have hupdate {op : PostfixOperator} (hkind : t.kind ≠ .endOfInput) :
      (update op).Runs r₁ (Operates source limit c r.cursor.position) := by
    have ht := htakes hkind
    refine hclosing (.bind_check fun _ _ => .pure ⟨?_, ht.lt h.good⟩)
    exact h.goesOn (.refl h.good) (ht.encloses h.good) (h.takes ht).good rfl nofun
  refine .ite (fun _ => hleave rfl) fun _ => ?_
  split
  case h_1 hkind _ => exact hupdate (hkind ▸ nofun)
  case h_2 hkind _ => exact hupdate (hkind ▸ nofun)
  case h_3 hkind =>
    have ht := htakes (hkind ▸ nofun)
    refine hclosing ((runs_templateParts hr f (h.takes ht).good (ht.encloses h.good)).bind ?_)
    rintro ⟨parts, span⟩ r₂ ⟨h₂, hspan⟩
    refine .pure ⟨?_, (ht.lt h.good).trans_le h₂.row.le⟩
    exact h.goesOn (.refl h.good) hspan h₂.good rfl nofun
  case h_4 => exact .ite (fun _ => hleave rfl) fun _ => .unexpected
  case h_5 operator hoperator _ _ _ =>
    refine .ite (fun _ => hleave rfl) fun _ => .ite (fun _ => ?_) fun _ => .ite (fun _ => .refuse)
      fun _ => ?_
    · exact .ite (fun _ => hleave rfl) fun _ => .unexpected
    · have ht := htakes fun hkind => by simp [hkind, Kind.operator?] at hoperator
      exact (runs_rightOf hr f e (p := { p with logical := logicalAtRoot operator }) h ht).bind
        fun _ _ hp => .pure hp

theorem runs_expression (f : Frame) (e : Extent) (h : r.Good source (limit + 1)) :
    (expression rules f e).Runs r fun x => Reads source limit r.cursor [x.node] :=
  (runs_operand hr f e h).bind fun _ _ h₁ =>
    Runs.loop (I := fun (p : Progress) => Reads source limit r.cursor [p.left])
      (fun _ _ h => h.good) (fun _ _ h => runs_operation hr f e h) hr.bound h₁

end ScriptMin.Grammar
