import ScriptMin.Grammar.Pattern
import ScriptMin.Proofs.Grammar.Pattern
import ScriptMin.Proofs.Grammar.Target
import ScriptMin.Proofs.Strictness.ReadAs
import ScriptMin.Proofs.Tree.Variables

/-!
# Patterns are read as their frames say

What the parts of a construct are read as is known through `Rules`. `Rules.Track` says that it is
read as strict code just if its frame is strict, and from it the same follows for each construct.
-/

namespace ScriptMin.Grammar

open Parse Node

/-! ## Checks of names -/

variable {generator strict : Bool} {kind : Binding} {name : Name} {f : Frame}

theorem ne_yield_of_checkYield (h : checkYield generator strict kind name = .ok ())
    (hstrict : strict) : name.text ≠ "yield" := by
  intro hname
  subst hstrict
  cases generator <;> cases kind <;> simp [checkYield, hname] at h

theorem passes_of_checkBinding (h : checkBinding f kind name = .ok ()) :
    kind.Passes f.strict name.text := by
  intro hstrict
  obtain ⟨_, hyield, h⟩ := bind_eq_ok.1 h
  refine ⟨ne_yield_of_checkYield hyield hstrict, fun hkind => ?_⟩
  split at h
  · cases h
  case isFalse hnot => simpa [hstrict, hkind] using hnot

/-- A pattern whose names have passed the check for what they are bound as. -/
structure Binds (kind : Binding) (strict : Bool) (n : Node) : Prop where
  readAs : n.ReadAs strict
  names : NamesPass kind strict n

/-- A pattern with parts binds the names of its parts. -/
theorem binds_of_parts {span : Source.Span} {shape : Shape Node} (huniform : shape.isUniform)
    (hshape : ∀ name, shape ≠ .bindingName name)
    (hchildren : ∀ c ∈ shape.children, c.ReadAs strict)
    (hpatterns : ∀ c ∈ shape.patterns, Binds kind strict c) :
    Binds kind strict ⟨span, shape⟩ where
  readAs := .uniform huniform hchildren
  names := by
    rw [NamesPass, boundNames_eq hshape]
    exact List.forall_mem_flatMap.2 fun c hc => (hpatterns c hc).names

/-! ## Constructs -/

/-- A statement, which is no directive: those are read before all statements. -/
structure ReadAsStatement (strict : Bool) (n : Node) : Prop where
  readAs : n.ReadAs strict
  noDirective : ∀ raw, n.shape ≠ .directive raw

theorem ReadAsStatement.uniform {span : Source.Span} {shape : Shape Node} (h : shape.isUniform)
    (hshape : ∀ raw, shape ≠ .directive raw) (hparts : ∀ c ∈ shape.children, c.ReadAs strict) :
    ReadAsStatement strict ⟨span, shape⟩ :=
  ⟨.uniform h hparts, hshape⟩

/-- Each construct is read as its frame says. An expression is no body. -/
structure Rules.Track (rules : Rules) : Prop where
  made : ∃ bound depth, rules = Grammar.rules bound depth
  expression : ∀ (f : Frame) (e : Extent), (rules.expression f e).Ensures fun r =>
    r.node.ReadAs f.strict ∧ r.node.Fits .expression
  statement : ∀ f : Frame, (rules.statement f).Ensures (ReadAsStatement f.strict)
  pattern : ∀ (f : Frame) kind, (rules.pattern f kind).Ensures (Binds kind f.strict)
  construct : ∀ (f : Frame) t, (rules.construct f t).Ensures (ReadAs f.strict)

variable {rules : Rules}

theorem readAs_bindingNode (t : Token) : (bindingNode t).ReadAs strict :=
  .uniform rfl nofun

/-- A name that was checked. -/
theorem binds_bindingNode {t : Token} (h : checkBinding f kind (.ofToken t) = .ok ()) :
    Binds kind f.strict (bindingNode t) where
  readAs := readAs_bindingNode t
  names := List.forall_mem_singleton.2 (passes_of_checkBinding h)

theorem binds_patternName (f : Frame) (kind : Binding) :
    (patternName f kind).Ensures (Binds kind f.strict) :=
  .bind_any fun _ => .bind (.check fun _ h => h) fun _ h => .pure (binds_bindingNode h)

variable (hr : rules.Track)

include hr

/-! ## Expressions in their places -/

theorem Rules.Track.value (f : Frame) (e : Extent) :
    (rules.expression f e).Ensures fun r => r.node.ReadAs f.strict :=
  (hr.expression f e).mono fun _ h => h.1

theorem Rules.Track.whole (f : Frame) (stop : Punctuator) :
    (rules.whole f stop).Ensures (ReadAs f.strict) :=
  .bind (hr.value f _) fun _ hvalue => .pure hvalue

theorem Rules.Track.single (f : Frame) (stops : List Punctuator) :
    (rules.single f stops).Ensures (ReadAs f.strict) :=
  .bind (hr.value f _) fun _ hvalue => .pure hvalue

theorem Rules.Track.fallback (f : Frame) (stop : Punctuator) :
    (rules.fallback f stop).Ensures fun value => ∀ n ∈ value, n.ReadAs f.strict := by
  refine .bind_any fun _ => .ite (fun _ => ?_) fun _ => .pure nofun
  exact .bind (hr.single f _) fun value hvalue => .pure (by simpa using hvalue)

theorem Rules.Track.parenthesised (f : Frame) :
    (rules.parenthesised f).Ensures (ReadAs f.strict) := by
  refine .bind_any fun _ => ?_
  exact .bind (hr.whole f _) fun _ hvalue => .bind_any fun _ => .pure hvalue

/-! ## Keys and patterns -/

theorem readAs_key (f : Frame) :
    (key rules f).Ensures fun k => ∀ c ∈ k.children, c.ReadAs f.strict := by
  refine .bind_any fun _ => .ite (fun _ => ?_) fun _ => ?_
  · refine .bind (hr.whole f _) fun expression hexpression => .bind_any fun _ => .pure ?_
    simpa [Key.children] using hexpression
  · exact .bind_any fun _ => .bind_any fun _ => .pure (List.forall_mem_nil _)

theorem binds_patternProperty (f : Frame) (kind : Binding) (first : Token) :
    (patternProperty rules f kind first).Ensures (Binds kind f.strict) := by
  refine .bind (readAs_key hr f) fun key hkey => .bind_any fun hasTarget => ?_
  -- The target is known before the value that it falls back to is read.
  extract_lets rest
  have hrest (target : Node) (shorthand : Bool) (htarget : Binds kind f.strict target) :
      (rest (target, shorthand)).Ensures (Binds kind f.strict) := by
    refine .bind (hr.fallback f _) fun fallback hfallback => .pure ?_
    refine binds_of_parts rfl nofun ?_ (List.forall_mem_singleton.2 htarget)
    simpa [Shape.children, or_imp, forall_and] using ⟨hkey, htarget.readAs, hfallback⟩
  refine .ite (fun _ => ?_) fun _ => ?_
  · exact .bind (hr.pattern f kind) fun target htarget => hrest target false htarget
  · cases key with
    | direct text =>
      refine .ite (fun _ => ?_) fun _ => ?_
      · exact .bind (.check fun _ h => h) fun _ h => hrest _ true (binds_bindingNode h)
      · exact .bind_any fun _ => .bind_unexpected
    | computed expression => exact .bind_any fun _ => .bind_unexpected

theorem binds_patternProperties (f : Frame) (kind : Binding) :
    (patternProperties rules f kind).Ensures fun (properties, rest) =>
      (∀ p ∈ properties, Binds kind f.strict p) ∧
        ∀ n ∈ rest, Binds kind f.strict n := by
  refine .bind (.iterate (I := fun read => ∀ p ∈ read, Binds kind f.strict p)
    (Q := fun (reversed, rest) =>
      (∀ p ∈ reversed, Binds kind f.strict p) ∧ ∀ n ∈ rest, Binds kind f.strict n)
    (fun read hread => ?_) rules.bound nofun)
    fun (reversed, rest) h => .pure (by simpa using h)
  refine .bind_any fun first => .ite (fun _ => .pure ⟨hread, nofun⟩) fun _ => ?_
  refine .bind_any fun _ => .ite (fun _ => ?_) fun _ => ?_
  · exact .bind (binds_patternName f kind) fun rest hrest => .pure ⟨hread, by simpa using hrest⟩
  · refine .bind (binds_patternProperty hr f kind first) fun property hproperty => ?_
    have hread := List.forall_mem_cons.2 ⟨hproperty, hread⟩
    exact .bind_any fun _ => .ite (fun _ => .pure hread) fun _ => .pure ⟨hread, nofun⟩

/-- An element of a pattern in brackets binds names, and falls back to an expression. -/
def ElementBinds (kind : Binding) (strict : Bool) (d : Defaulted Node) : Prop :=
  Binds kind strict d.target ∧ ∀ n ∈ d.fallback, n.ReadAs strict

theorem binds_patternElements (f : Frame) (kind : Binding) :
    (patternElements rules f kind).Ensures fun (elements, rest) =>
      (∀ e ∈ elements, ∀ d ∈ e, ElementBinds kind f.strict d) ∧
        ∀ n ∈ rest, Binds kind f.strict n := by
  refine .bind (.iterate (I := fun read => ∀ e ∈ read, ∀ d ∈ e, ElementBinds kind f.strict d)
    (Q := fun (reversed, rest) => (∀ e ∈ reversed, ∀ d ∈ e, ElementBinds kind f.strict d) ∧
      ∀ n ∈ rest, Binds kind f.strict n)
    (fun read hread => ?_) rules.bound nofun)
    fun (reversed, rest) h => .pure (by simpa using h)
  refine .bind_any fun _ => .ite (fun _ => .pure ⟨hread, nofun⟩) fun _ => ?_
  refine .bind_any fun _ => .ite (fun _ => ?_) fun _ => ?_
  · exact .bind (hr.pattern f kind) fun rest hrest => .pure ⟨hread, by simpa using hrest⟩
  refine .bind_any fun _ => .ite (fun _ => ?_) fun _ => ?_
  · exact .pure (List.forall_mem_cons.2 ⟨nofun, hread⟩)
  · refine .bind (hr.pattern f kind) fun target htarget => ?_
    refine .bind (hr.fallback f _) fun fallback hfallback => ?_
    have helement : ElementBinds kind f.strict ⟨target, fallback⟩ := ⟨htarget, hfallback⟩
    have hread := List.forall_mem_cons (a := some ⟨target, fallback⟩).2
      ⟨by simpa using helement, hread⟩
    exact .bind_any fun _ => .ite (fun _ => .pure hread) fun _ => .pure ⟨hread, nofun⟩

theorem binds_pattern (f : Frame) (kind : Binding) :
    (pattern rules f kind).Ensures (Binds kind f.strict) := by
  refine .bind_any fun t => ?_
  split
  case h_1 =>
    refine .bind_any fun _ => .bind (binds_patternProperties hr f kind) ?_
    rintro ⟨properties, rest⟩ ⟨hproperties, hrest⟩
    refine .bind_any fun _ => .pure ?_
    have hparts : ∀ n ∈ properties ++ rest.toList, Binds kind f.strict n := by
      simpa [or_imp, forall_and] using ⟨hproperties, hrest⟩
    exact binds_of_parts rfl nofun (fun n hn => (hparts n hn).readAs) hparts
  case h_2 =>
    refine .bind_any fun _ => .bind (binds_patternElements hr f kind) ?_
    rintro ⟨elements, rest⟩ ⟨helements, hrest⟩
    refine .bind_any fun _ => .pure (binds_of_parts rfl nofun ?_ ?_)
    · simp only [Shape.children, List.forall_mem_append, List.forall_mem_flatMap,
        Option.mem_toList, Defaulted.children, List.forall_mem_cons]
      exact ⟨fun e he d hd => ⟨(helements e he d hd).1.readAs, (helements e he d hd).2⟩,
        fun n hn => (hrest n hn).readAs⟩
    · simp only [Shape.patterns, List.forall_mem_append, List.forall_mem_flatMap,
        Option.mem_toList, List.forall_mem_map]
      exact ⟨fun e he d hd => (helements e he d hd).1, hrest⟩
  case h_3 => exact binds_patternName f kind

end ScriptMin.Grammar
