import ScriptMin.Grammar.Pattern
import ScriptMin.Proofs.Grammar.Ensures
import ScriptMin.Proofs.Tree.WellFormed

/-!
# Patterns are well formed

What the parts of a construct are read as is known through `Rules`. `Rules.Sound` says that it fits
the role that it is read for, and from it the same follows for each construct.
-/

namespace ScriptMin.Grammar

open Parse Node

/-- Each construct fits its role. -/
structure Rules.Sound (rules : Rules) : Prop where
  expression : ∀ f e, (rules.expression f e).Ensures fun r => r.node.Fits .expression
  statement : ∀ f, (rules.statement f).Ensures (Fits .statement)
  pattern : ∀ f kind, (rules.pattern f kind).Ensures (Fits .target)
  construct : ∀ f t, (rules.construct f t).Ensures (Fits .expression)

variable {rules : Rules} (hr : rules.Sound)

theorem fits_bindingNode {role : Role} (t : Token) (h : role.accepts (bindingNode t).shape) :
    (bindingNode t).Fits role :=
  fits_mk h filled_nil

theorem ensures_patternName (f : Frame) (kind : Binding) :
    (patternName f kind).Ensures (Fits .target) := by
  refine .bind_any fun t => .bind_any fun _ => .pure ?_
  exact fits_bindingNode t rfl

include hr

/-! ## Expressions in their places -/

theorem Rules.Sound.whole (f : Frame) (stop : Punctuator) :
    (rules.whole f stop).Ensures (Fits .expression) :=
  .bind (hr.expression f _) fun _ hvalue => .pure hvalue

theorem Rules.Sound.single (f : Frame) (stops : List Punctuator) :
    (rules.single f stops).Ensures (Fits .expression) :=
  .bind (hr.expression f _) fun _ hvalue => .pure hvalue

theorem Rules.Sound.fallback (f : Frame) (stop : Punctuator) :
    (rules.fallback f stop).Ensures fun value => ∀ n ∈ value, n.Fits .expression := by
  refine .bind_any fun _ => .ite (fun _ => ?_) fun _ => .pure nofun
  exact .bind (hr.single f _) fun value hvalue => .pure (by simpa using hvalue)

theorem Rules.Sound.parenthesised (f : Frame) :
    (rules.parenthesised f).Ensures (Fits .expression) := by
  refine .bind_any fun _ => ?_
  exact .bind (hr.whole f _) fun _ hvalue => .bind_any fun _ => .pure hvalue

/-! ## Keys and patterns -/

theorem ensures_key (f : Frame) : (key rules f).Ensures fun k => Filled k.places := by
  refine .bind_any fun _ => .ite (fun _ => ?_) fun _ => ?_
  · refine .bind (hr.whole f _) fun expression hexpression => .bind_any fun _ => .pure ?_
    simpa [Key.places, Key.children] using hexpression
  · exact .bind_any fun _ => .bind_any fun _ => .pure filled_nil

theorem ensures_patternProperty (f : Frame) (kind : Binding) (first : Token) :
    (patternProperty rules f kind first).Ensures (Fits .property) := by
  refine .bind (ensures_key hr f) fun key hkey => .bind_any fun hasTarget => ?_
  -- The target is known before the value that it falls back to is read.
  extract_lets rest
  have hrest (target : Node) (shorthand : Bool) (h : target.Fits .target) :
      (rest (target, shorthand)).Ensures (Fits .property) := by
    refine .bind (hr.fallback f _) fun fallback hfallback => .pure (fits_mk rfl ?_)
    simpa [Shape.places] using ⟨hkey, h, hfallback⟩
  refine .ite (fun _ => ?_) fun _ => ?_
  · exact .bind (hr.pattern f kind) fun target htarget => hrest target false htarget
  · cases key with
    | direct text =>
      refine .ite (fun _ => ?_) fun _ => ?_
      · exact .bind_any fun _ => hrest _ true (fits_bindingNode first rfl)
      · exact .bind_any fun _ => .bind_unexpected
    | computed expression => exact .bind_any fun _ => .bind_unexpected

theorem ensures_patternProperties (f : Frame) (kind : Binding) :
    (patternProperties rules f kind).Ensures fun (properties, rest) =>
      (∀ p ∈ properties, p.Fits .property) ∧ ∀ n ∈ rest, n.Fits .target := by
  refine .bind (.iterate (I := fun read => ∀ p ∈ read, p.Fits .property)
    (Q := fun (reversed, rest) =>
      (∀ p ∈ reversed, p.Fits .property) ∧ ∀ n ∈ rest, n.Fits .target)
    (fun read hread => ?_) rules.bound nofun)
    fun (reversed, rest) h => .pure (by simpa using h)
  refine .bind_any fun first => .ite (fun _ => .pure ⟨hread, nofun⟩) fun _ => ?_
  refine .bind_any fun _ => .ite (fun _ => ?_) fun _ => ?_
  · exact .bind (ensures_patternName f kind) fun rest hrest => .pure ⟨hread, by simpa using hrest⟩
  · refine .bind (ensures_patternProperty hr f kind first) fun property hproperty => ?_
    have hread := List.forall_mem_cons.2 ⟨hproperty, hread⟩
    exact .bind_any fun _ => .ite (fun _ => .pure hread) fun _ => .pure ⟨hread, nofun⟩

theorem ensures_patternElements (f : Frame) (kind : Binding) :
    (patternElements rules f kind).Ensures fun (elements, rest) =>
      (∀ e ∈ elements, ∀ d ∈ e, Filled d.places) ∧ ∀ n ∈ rest, n.Fits .target := by
  refine .bind (.iterate (I := fun read => ∀ e ∈ read, ∀ d ∈ e, Filled d.places)
    (Q := fun (reversed, rest) =>
      (∀ e ∈ reversed, ∀ d ∈ e, Filled d.places) ∧ ∀ n ∈ rest, n.Fits .target)
    (fun read hread => ?_) rules.bound nofun)
    fun (reversed, rest) h => .pure (by simpa using h)
  refine .bind_any fun _ => .ite (fun _ => .pure ⟨hread, nofun⟩) fun _ => ?_
  refine .bind_any fun _ => .ite (fun _ => ?_) fun _ => ?_
  · exact .bind (hr.pattern f kind) fun rest hrest => .pure ⟨hread, by simpa using hrest⟩
  refine .bind_any fun _ => .ite (fun _ => ?_) fun _ => ?_
  · exact .pure (List.forall_mem_cons.2 ⟨nofun, hread⟩)
  · refine .bind (hr.pattern f kind) fun target htarget => ?_
    refine .bind (hr.fallback f _) fun fallback hfallback => ?_
    have hread := List.forall_mem_cons (a := some ⟨target, fallback⟩).2
      ⟨by simpa [Defaulted.places] using ⟨htarget, hfallback⟩, hread⟩
    exact .bind_any fun _ => .ite (fun _ => .pure hread) fun _ => .pure ⟨hread, nofun⟩

theorem ensures_pattern (f : Frame) (kind : Binding) :
    (pattern rules f kind).Ensures (Fits .target) := by
  refine .bind_any fun t => ?_
  split
  case h_1 =>
    refine .bind_any fun _ => .bind (ensures_patternProperties hr f kind) ?_
    rintro ⟨properties, rest⟩ ⟨hproperties, hrest⟩
    refine .bind_any fun _ => .pure (fits_mk rfl ?_)
    simpa [Shape.places] using ⟨hproperties, hrest⟩
  case h_2 =>
    refine .bind_any fun _ => .bind (ensures_patternElements hr f kind) ?_
    rintro ⟨elements, rest⟩ ⟨helements, hrest⟩
    refine .bind_any fun _ => .pure (fits_mk rfl ?_)
    simpa [Shape.places] using ⟨helements, hrest⟩
  case h_3 => exact ensures_patternName f kind

end ScriptMin.Grammar
