import ScriptMin.Grammar.Pattern
import ScriptMin.Proofs.Reading.Rules

/-!
# What patterns read

Keys and patterns end, and their nodes nest.
-/

namespace ScriptMin.Grammar

open Source Parse Reader

variable {source : List Char} {limit : Nat} {r r' : Reader}

/-- A name stands where its token does. -/
theorem row_bindingNode {t : Token} {lo hi : Nat} (h : Encloses source lo t.span [] hi) :
    Row source lo [bindingNode t] hi :=
  Encloses.node (.bindingName t.text) h nofun

theorem runs_patternName (f : Frame) (kind : Binding) (h : r.Good source (limit + 1)) :
    (patternName f kind).Runs r fun n => Reads source limit r.cursor [n] :=
  bind_expectIn h rfl fun _ _ _ ht =>
    .bind_check fun _ _ => .pure (ht.alone _ h rfl nofun)

variable {rules : Rules} (hr : rules.Proceeds source limit)

include hr

/-- A key starts with the next token, and is no more than that unless it is computed. -/
theorem runs_key (f : Frame) (h : r.Good source (limit + 1)) {first : Token} {after : Cursor}
    (hfirst : r.cursor.next .division = .ok (first, after)) :
    (key rules f).Runs r fun k r' => Reads source limit r.cursor [] r' ∧
      Row source after.position k.children r'.cursor.position ∧
      ∀ name, k = .direct name → name = first.text ∧ r'.cursor = after := by
  refine if_tookPunctuator h (fun t r₁ ht => ?_) fun t r₁ hs => ?_
  · obtain ⟨rfl, rfl⟩ : t = first ∧ r₁.cursor = after := by simpa [hfirst, eq_comm] using ht.lexed
    refine (hr.whole f _ (ht.good h)).bind fun n r₂ hn => ?_
    refine bind_expectPunctuator hn.good fun close r₃ hclose => .pure ⟨?_, ?_, nofun⟩
    · exact ((ht.reads h).skips (hn.toSpans.of_row (.nil hn.row.le))).takes hclose
    · exact hn.row.mono le_rfl (hclose.le hn.good)
  · have h₁ := hs.good h
    refine bind_expectIn h₁ rfl fun t r₂ _ ht => .bind_check fun _ _ => .pure ?_
    have hcursor := hs.cursor
    obtain ⟨rfl, rfl⟩ : t = first ∧ r₂.cursor = after := by
      simpa [hfirst, hcursor, eq_comm] using ht.lexed
    exact ⟨hcursor ▸ ht.reads h₁, .nil le_rfl, fun name hname => by cases hname; exact ⟨rfl, rfl⟩⟩

theorem runs_patternProperty (f : Frame) (kind : Binding) (h : r.Good source (limit + 1))
    {first : Token} {after : Cursor} (hfirst : r.cursor.next .division = .ok (first, after)) :
    (patternProperty rules f kind first).Runs r fun n => Reads source limit r.cursor [n] := by
  have hlexed := h.standsIn.lexed hfirst
  refine (runs_key hr f h hfirst).bind fun key r₁ ⟨h₁, hkey, hdirect⟩ => ?_
  extract_lets goesOn
  -- up to its target a property is covered from its first token on
  have hgoesOn {target : Node} {shorthand : Bool} {r₂ : Reader}
      (h₂ : Reads source limit r.cursor [] r₂) (hstart : first.span.start ≤ target.span.start)
      (hcover : Encloses source r.cursor.position (first.span.cover target.span)
        (key.children ++ [target]) r₂.cursor.position) :
      (goesOn (target, shorthand)).Runs r₂ fun n => Reads source limit r.cursor [n] := by
    refine (hr.fallback f _ h₂.good).bind fun fallback r₃ h₃ => .pure ?_
    refine (h₂.append h₃).of_row ?_
    cases fallback with
    | none =>
      refine Encloses.node (.patternProperty key target none shorthand) ?_ (by rintro _ ⟨⟩)
      exact (by simpa [Shape.children] using hcover.mono le_rfl h₃.row.le)
    | some value =>
      have hnode := hcover.coverOn hstart (.nil le_rfl) (.of_node h₃.row)
      rw [List.append_nil] at hnode
      exact Encloses.node (.patternProperty key target (some value) shorthand) hnode
        (by rintro _ ⟨⟩)
  refine if_tookPunctuator h₁.good (fun t r₂ ht => ?_) fun t r₂ hs => ?_
  · have h₂ := ht.spans h₁.good.weaken
    refine (hr.pattern f kind h₂.good).bind fun target r₃ h₃ => ?_
    have hgap := (hkey.append h₂.row)
    rw [List.append_nil] at hgap
    refine hgoesOn ((h₁.skips h₂).skips (h₃.toSpans.of_row (.nil h₃.row.le))) ?_ ?_
    · exact (hlexed.encloses.row.le.trans hlexed.encloses.le_hi).trans
        (hgap.le.trans h₃.row.ordered.1)
    · exact hlexed.encloses.cover hgap (.of_node h₃.row)
  · have h₂ : r₂.Good source limit := hs.good h₁.good
    cases key with
    | computed expression => exact bind_peek h₂ fun _ _ _ => .bind_unexpected
    | direct name =>
      obtain ⟨-, hafter⟩ := hdirect name rfl
      refine .ite (fun _ => .bind_check fun _ _ => ?_) fun _ =>
        bind_peek h₂ fun _ _ _ => .bind_unexpected
      have hcursor : r₂.cursor = after := hs.cursor.trans hafter
      refine hgoesOn ⟨h₂, ?_, ?_⟩ le_rfl ?_
      · exact hs.cursor ▸ h₁.row
      · exact hs.cursor ▸ h₁.passes
      · rw [hcursor]
        exact (Span.cover_self _).symm ▸ .of_node (row_bindingNode hlexed.encloses)

theorem runs_patternProperties (f : Frame) (kind : Binding) (h : r.Good source limit) :
    (patternProperties rules f kind).Runs r fun (properties, rest) =>
      Spans source limit r.cursor (properties ++ rest.toList) := by
  refine .bind (Runs.loop (I := fun read => Spans source limit r.cursor read.reverse)
    (Q := fun (read, rest) => Spans source limit r.cursor (read.reverse ++ rest.toList))
    (fun _ _ h => h.good) (fun read r₁ h₁ => ?_) hr.bound (.refl h)) fun _ _ hread => .pure hread
  refine bind_peek h₁.good fun first r₂ hs => ?_
  have h₂ := h₁.sees hs
  obtain ⟨after, hfirst, rfl⟩ := hs
  refine .ite (fun _ => .pure h₂.noRest) fun _ => ?_
  refine if_tookPunctuator h₂.good (fun t r₃ ht => ?_) fun t r₃ hs => ?_
  · have h₃ := h₂.takes ht
    exact (runs_patternName f kind h₃.good.weaken).bind fun n r₄ hn =>
      .pure (h₃.append hn.toSpans)
  · have h₃ := h₂.sees hs
    refine (runs_patternProperty hr f kind h₃.good.weaken (hs.cursor ▸ hfirst)).bind
      fun n r₄ hn => ?_
    have h₄ := h₃.snoc hn.toSpans
    refine if_tookPunctuator h₄.good (fun t r₅ ht => .pure ⟨h₄.takes ht, ?_⟩)
      fun t r₅ hs => .pure ?_
    · exact hs.cursor ▸ (hn.takes ht).lt h₃.good
    · exact (h₄.sees hs).noRest

theorem runs_patternElements (f : Frame) (kind : Binding) (h : r.Good source limit) :
    (patternElements rules f kind).Runs r fun (elements, rest) =>
      Spans source limit r.cursor
        ((elements.flatMap fun e => e.toList.flatMap Defaulted.children) ++ rest.toList) := by
  let parts (e : Option (Defaulted Node)) : List Node := e.toList.flatMap Defaulted.children
  refine .bind (Runs.loop
    (I := fun read => Spans source limit r.cursor (read.reverse.flatMap parts))
    (Q := fun (read, rest) =>
      Spans source limit r.cursor (read.reverse.flatMap parts ++ rest.toList))
    (fun _ _ h => h.good) (fun read r₁ h₁ => ?_) hr.bound (.refl h)) fun _ _ hread => .pure hread
  refine if_atPunctuator h₁.good (fun t r₂ hs => .pure (h₁.sees hs).noRest) fun t r₂ hs => ?_
  have h₂ := h₁.sees hs
  refine if_tookPunctuator h₂.good (fun t r₃ ht => ?_) fun t r₃ hs₃ => ?_
  · have h₃ := h₂.takes ht
    exact (hr.pattern f kind h₃.good).bind fun n r₄ hn => .pure (h₃.append hn.toSpans)
  have h₃ := h₂.sees hs₃
  refine if_tookPunctuator h₃.good (fun t r₄ ht => .pure ⟨?_, ?_⟩) fun t r₄ hs₄ => ?_
  · exact h₃.snocParts (x := none) (ht.spans h₃.good.weaken)
  · exact hs.cursor ▸ hs₃.cursor ▸ ht.lt h₃.good
  have h₄ := h₃.sees hs₄
  refine (hr.pattern f kind h₄.good).bind fun target r₅ h₅ => ?_
  refine (hr.fallback f _ h₅.good).bind fun fallback r₆ h₆ => ?_
  have h₇ : Spans source limit r.cursor ((some ⟨target, fallback⟩ :: read).reverse.flatMap parts)
      r₆ :=
    h₄.snocParts (by simpa [parts, Defaulted.children] using h₅.toSpans.append h₆)
  refine if_tookPunctuator h₇.good (fun t r₈ ht => .pure ⟨h₇.takes ht, ?_⟩)
    fun t r₈ hs => .pure (h₇.sees hs).noRest
  exact hs.cursor ▸ hs₃.cursor ▸ hs₄.cursor ▸ ((h₅.append h₆).takes ht).lt h₄.good

/-- A pattern is one node, and not empty. -/
theorem runs_pattern (f : Frame) (kind : Binding) (h : r.Good source (limit + 1)) :
    (pattern rules f kind).Runs r fun n => Reads source limit r.cursor [n] := by
  refine bind_peek h fun t r₁ hs => ?_
  split
  case h_1 hkind =>
    refine bind_skip hs (hkind ▸ nofun) fun r₂ ht => ?_
    refine (runs_patternProperties hr f kind (ht.good h)).bind fun (properties, rest) r₃ h₃ => ?_
    exact bind_expectPunctuator h₃.good fun close r₄ hclose =>
      .pure (ht.bracketed h h₃ hclose nofun)
  case h_2 hkind =>
    refine bind_skip hs (hkind ▸ nofun) fun r₂ ht => ?_
    refine (runs_patternElements hr f kind (ht.good h)).bind fun (elements, rest) r₃ h₃ => ?_
    exact bind_expectPunctuator h₃.good fun close r₄ hclose =>
      .pure (ht.bracketed h h₃ hclose nofun)
  case h_3 => exact hs.cursor ▸ runs_patternName f kind (hs.good h)

end ScriptMin.Grammar
