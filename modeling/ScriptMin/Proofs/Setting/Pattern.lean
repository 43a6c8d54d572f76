import ScriptMin.Grammar.Pattern
import ScriptMin.Proofs.Grammar.Ensures
import ScriptMin.Proofs.Setting.Frame

/-!
# Patterns are legal where they stand

What the parts of a construct are read as is known through `Rules`. `Rules.Stands` says that it is
legal in every setting that has what the frame grants, and from it the same follows for each
construct. Expressions and patterns have no labels before them, so their settings are `inner` ones.
-/

namespace ScriptMin.Grammar

open Parse Node

/-- Each construct is legal in the settings that its frame goes with. -/
structure Rules.Stands (rules : Rules) : Prop where
  expression : ∀ {f : Frame} {s : Setting} (e : Extent), Admits s f →
    (rules.expression f e).Ensures fun r => r.node.Legal s.inner
  statement : ∀ {f : Frame} {s : Setting}, Hosts s f → (rules.statement f).Ensures (Legal s)
  pattern : ∀ {f : Frame} {s : Setting} (kind : Binding), Admits s f →
    (rules.pattern f kind).Ensures (Legal s.inner)
  construct : ∀ {f : Frame} {s : Setting} (t : Token), Admits s f →
    (rules.construct f t).Ensures (Legal s.inner)

variable {rules : Rules} {f : Frame} {s : Setting}

theorem legal_bindingNode (t : Token) : (bindingNode t).Legal s :=
  legal_plain rfl ⟨trivial, trivial⟩ nofun

theorem stands_patternName (f : Frame) (kind : Binding) :
    (patternName f kind).Ensures (Legal s) :=
  .bind_any fun t => .bind_any fun _ => .pure (legal_bindingNode t)

variable (hr : rules.Stands) (h : Admits s f)

include hr h

/-! ## Expressions in their places -/

theorem Rules.Stands.whole (stop : Punctuator) : (rules.whole f stop).Ensures (Legal s.inner) :=
  .bind (hr.expression _ h) fun _ hvalue => .pure hvalue

theorem Rules.Stands.single (stops : List Punctuator) :
    (rules.single f stops).Ensures (Legal s.inner) :=
  .bind (hr.expression _ h) fun _ hvalue => .pure hvalue

theorem Rules.Stands.fallback (stop : Punctuator) :
    (rules.fallback f stop).Ensures fun value => ∀ n ∈ value, n.Legal s.inner := by
  refine .bind_any fun _ => .ite (fun _ => ?_) fun _ => .pure nofun
  exact .bind (hr.single h _) fun value hvalue => .pure (by simpa using hvalue)

theorem Rules.Stands.parenthesised : (rules.parenthesised f).Ensures (Legal s.inner) := by
  refine .bind_any fun _ => ?_
  exact .bind (hr.whole h _) fun _ hvalue => .bind_any fun _ => .pure hvalue

/-! ## Keys and patterns -/

theorem stands_key : (key rules f).Ensures fun k => ∀ c ∈ k.children, c.Legal s.inner := by
  refine .bind_any fun _ => .ite (fun _ => ?_) fun _ => ?_
  · refine .bind (hr.whole h _) fun expression hexpression => .bind_any fun _ => .pure ?_
    simpa [Key.children] using hexpression
  · exact .bind_any fun _ => .bind_any fun _ => .pure (List.forall_mem_nil _)

theorem stands_patternProperty (kind : Binding) (first : Token) :
    (patternProperty rules f kind first).Ensures (Legal s.inner) := by
  refine .bind (stands_key hr h) fun key hkey => .bind_any fun hasTarget => ?_
  -- The target is known before the value that it falls back to is read.
  extract_lets rest
  have hrest (target : Node) (shorthand : Bool) (htarget : target.Legal s.inner) :
      (rest (target, shorthand)).Ensures (Legal s.inner) := by
    refine .bind (hr.fallback h _) fun fallback hfallback => .pure ?_
    refine legal_plain rfl ⟨trivial, trivial⟩ ?_
    simpa [Shape.children, or_imp, forall_and] using ⟨hkey, htarget, hfallback⟩
  refine .ite (fun _ => ?_) fun _ => ?_
  · exact .bind (hr.pattern kind h) fun target htarget => hrest target false htarget
  · cases key with
    | direct text =>
      refine .ite (fun _ => ?_) fun _ => ?_
      · exact .bind_any fun _ => hrest _ true (legal_bindingNode first)
      · exact .bind_any fun _ => .bind_unexpected
    | computed expression => exact .bind_any fun _ => .bind_unexpected

theorem stands_patternProperties (kind : Binding) :
    (patternProperties rules f kind).Ensures fun (properties, rest) =>
      (∀ p ∈ properties, p.Legal s.inner) ∧ ∀ n ∈ rest, n.Legal s.inner := by
  refine .bind (.iterate (I := fun read => ∀ p ∈ read, p.Legal s.inner)
    (Q := fun (reversed, rest) =>
      (∀ p ∈ reversed, p.Legal s.inner) ∧ ∀ n ∈ rest, n.Legal s.inner)
    (fun read hread => ?_) rules.bound nofun)
    fun (reversed, rest) h => .pure (by simpa using h)
  refine .bind_any fun first => .ite (fun _ => .pure ⟨hread, nofun⟩) fun _ => ?_
  refine .bind_any fun _ => .ite (fun _ => ?_) fun _ => ?_
  · exact .bind (stands_patternName f kind) fun rest hrest => .pure ⟨hread, by simpa using hrest⟩
  · refine .bind (stands_patternProperty hr h kind first) fun property hproperty => ?_
    have hread := List.forall_mem_cons.2 ⟨hproperty, hread⟩
    exact .bind_any fun _ => .ite (fun _ => .pure hread) fun _ => .pure ⟨hread, nofun⟩

theorem stands_patternElements (kind : Binding) :
    (patternElements rules f kind).Ensures fun (elements, rest) =>
      (∀ e ∈ elements, ∀ d ∈ e, ∀ c ∈ Defaulted.children d, c.Legal s.inner) ∧
        ∀ n ∈ rest, n.Legal s.inner := by
  refine .bind (.iterate
    (I := fun read => ∀ e ∈ read, ∀ d ∈ e, ∀ c ∈ Defaulted.children d, c.Legal s.inner)
    (Q := fun (reversed, rest) =>
      (∀ e ∈ reversed, ∀ d ∈ e, ∀ c ∈ Defaulted.children d, c.Legal s.inner) ∧
        ∀ n ∈ rest, n.Legal s.inner)
    (fun read hread => ?_) rules.bound nofun)
    fun (reversed, rest) h => .pure (by simpa using h)
  refine .bind_any fun _ => .ite (fun _ => .pure ⟨hread, nofun⟩) fun _ => ?_
  refine .bind_any fun _ => .ite (fun _ => ?_) fun _ => ?_
  · exact .bind (hr.pattern kind h) fun rest hrest => .pure ⟨hread, by simpa using hrest⟩
  refine .bind_any fun _ => .ite (fun _ => ?_) fun _ => ?_
  · exact .pure (List.forall_mem_cons.2 ⟨nofun, hread⟩)
  · refine .bind (hr.pattern kind h) fun target htarget => ?_
    refine .bind (hr.fallback h _) fun fallback hfallback => ?_
    have hread := List.forall_mem_cons (a := some ⟨target, fallback⟩).2
      ⟨by simpa [Defaulted.children] using ⟨htarget, hfallback⟩, hread⟩
    exact .bind_any fun _ => .ite (fun _ => .pure hread) fun _ => .pure ⟨hread, nofun⟩

theorem stands_pattern (kind : Binding) : (pattern rules f kind).Ensures (Legal s.inner) := by
  refine .bind_any fun t => ?_
  split
  case h_1 =>
    refine .bind_any fun _ => .bind (stands_patternProperties hr h kind) ?_
    rintro ⟨properties, rest⟩ ⟨hproperties, hrest⟩
    refine .bind_any fun _ => .pure (legal_plain rfl ⟨trivial, trivial⟩ ?_)
    simpa [Shape.children, or_imp, forall_and] using ⟨hproperties, hrest⟩
  case h_2 =>
    refine .bind_any fun _ => .bind (stands_patternElements hr h kind) ?_
    rintro ⟨elements, rest⟩ ⟨helements, hrest⟩
    refine .bind_any fun _ => .pure (legal_plain rfl ⟨trivial, trivial⟩ ?_)
    simp only [Shape.children, List.forall_mem_append, List.forall_mem_flatMap, Option.mem_toList,
      Setting.inner_inner]
    exact ⟨helements, hrest⟩
  case h_3 => exact stands_patternName f kind

end ScriptMin.Grammar
