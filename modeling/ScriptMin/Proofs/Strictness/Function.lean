import ScriptMin.Grammar.Arrow
import ScriptMin.Proofs.Strictness.Pattern

/-!
# Functions are read as their frames say

The directives of a body make the frame of its statements, and `Rename.isStrictBody` finds them
again in the tree. The name and the parameters are read in a frame that is strict if the code around
the function is. They are checked again when the body is known.
-/

namespace ScriptMin.Grammar

open Parse Node

open Rename (isStrictBody)

/-! ## Checks behind a body -/

/-- A step that is made in one case only, and what succeeds after it. -/
theorem ite_bind_eq_ok {ε β : Type} {c : Prop} [Decidable c] {x : Except ε Unit}
    {k : Unit → Except ε β} {b : β} :
    (if c then x >>= k else k ()) = .ok b ↔ (c → x = .ok ()) ∧ k () = .ok b := by
  split
  case isTrue h =>
    exact bind_eq_ok.trans
      ⟨fun ⟨_, hx, hk⟩ => ⟨fun _ => hx, hk⟩, fun ⟨hx, hk⟩ => ⟨_, hx h, hk⟩⟩
  case isFalse h => simp [h]

theorem passesLate_of_checkParameterNames {outer strict unique : Bool} {names : List Name}
    {seen : List String} (h : checkParameterNames outer strict unique seen names = .ok ()) :
    ∀ name ∈ names, PassesLate outer strict name.text := by
  induction names generalizing seen with
  | nil => nofun
  | cons name rest ih =>
    unfold checkParameterNames at h
    obtain ⟨hyield, h⟩ := ite_bind_eq_ok.1 h
    obtain ⟨hother, h⟩ := ite_bind_eq_ok.1 h
    obtain ⟨-, h⟩ := ite_bind_eq_ok.1 h
    refine List.forall_mem_cons.2 ⟨fun hstrict => ⟨fun houter => ?_, ?_⟩, ih h⟩
    · exact ne_yield_of_checkYield (hyield (by simp [hstrict, houter])) rfl
    · by_contra hname
      simpa using hother (by simp [hstrict, hname])

theorem namesPassLate_of_boundNames {outer : Bool} {body pattern : Node}
    (h : ∀ name ∈ boundNames pattern, PassesLate outer (outer || isStrictBody body) name.text) :
    NamesPassLate outer body pattern :=
  fun name hname => h _ (List.mem_map.2 ⟨name, hname, rfl⟩)

/-! ## Directives -/

theorem isString_directive : directive.Ensures fun o => ∀ t ∈ o, t.kind = .string := by
  refine .bind_any fun place => .bind_any fun t => ?_
  extract_lets rest
  have hrest (ends : Bool) (h : ends → t.kind = .string) :
      (rest ends).Ensures fun o => ∀ t ∈ o, t.kind = .string :=
    .ite (fun hends => .pure (by simpa using h hends)) fun _ => .bind_any fun _ => .pure nofun
  refine .ite (fun _ => hrest false nofun) fun hkind => ?_
  have hstring : t.kind = .string := by simpa using hkind
  refine .bind_any fun after => ?_
  split
  case h_1 => exact .bind_any fun _ => hrest true fun _ => hstring
  case h_2 | h_3 => exact hrest true fun _ => hstring
  case h_4 => exact hrest _ fun _ => hstring

/-- The directives of a body are the first statements that are directives. -/
theorem isStrictBody_block {tokens : List Token} (htokens : ∀ t ∈ tokens, t.kind = .string)
    {statements : List Node} (h : ∀ n ∈ statements, ∀ raw, n.shape ≠ .directive raw)
    (span : Source.Span) :
    isStrictBody ⟨span, .block (tokens.map (fun t => ⟨t.span, .directive t.text⟩) ++ statements)⟩ =
      tokens.any (·.shown == "use strict") := by
  have hnone (p : Node → Bool) (hp : ∀ n ∈ statements, p n = false) :
      statements.takeWhile p = [] := by
    cases statements with
    | nil => rfl
    | cons n rest => exact List.takeWhile_cons_of_neg (by simp [hp n List.mem_cons_self])
  have hshown : ∀ t ∈ tokens, (t.text.toList.tail.dropLast == "use strict".toList) =
      (t.shown == "use strict") := by
    intro t ht
    simp only [Token.shown, htokens t ht]
    rw [Bool.eq_iff_iff, beq_iff_eq, beq_iff_eq, ← String.toList_inj]
    simp only [String.toList_ofList]
  simp only [isStrictBody]
  rw [List.takeWhile_append_of_pos (by simp), hnone, List.append_nil, List.any_map]
  · rw [Bool.eq_iff_iff, List.any_eq_true, List.any_eq_true]
    exact exists_congr fun t => and_congr_right fun ht => Bool.eq_iff_iff.1 (hshown t ht)
  · intro n hn
    split
    case h_1 hshape => exact absurd hshape (h n hn _)
    case h_2 => rfl

theorem prologue_tokens (bound : Nat) (strict : Bool) :
    (prologue bound strict).Ensures fun (directives, isStrict) => ∃ tokens : List Token,
      (∀ t ∈ tokens, t.kind = .string) ∧
      directives = tokens.map (fun t => ⟨t.span, .directive t.text⟩) ∧
      isStrict = (strict || tokens.any (·.shown == "use strict")) :=
  .bind (.collect isString_directive bound) fun tokens htokens =>
    .pure ⟨tokens, htokens, rfl, rfl⟩

/-! ## Parts of functions -/

/-- A body in code that is strict or not, and whether it is strict code itself. -/
structure BodyReadAs (outer : Bool) (body : Node) (strict : Bool) : Prop where
  strict : strict = (outer || isStrictBody body)
  readAs : body.ReadAs (outer || isStrictBody body)

/-- A list of parameters, whose names have passed the first check. -/
structure SignatureReadAs (outer : Bool) (n : Node) : Prop where
  readAs : n.ReadAs outer
  names : ∀ pattern ∈ n.parameterPatterns, NamesPass .parameter outer pattern

theorem readAs_definitionNode {strict : Bool} (t : Token) : (definitionNode t).ReadAs strict :=
  .uniform rfl nofun

/-- A parameter, whose names have passed the first check. -/
def ParameterReadAs (outer : Bool) (n : Node) : Prop :=
  ∃ span isRest pattern fallback, n = ⟨span, .parameter isRest pattern fallback⟩ ∧
    Binds .parameter outer pattern ∧ ∀ n ∈ fallback, n.ReadAs outer

theorem SignatureReadAs.of_parameters {outer : Bool} {parameters : List Node}
    (h : ∀ p ∈ parameters, ParameterReadAs outer p) (span : Source.Span) :
    SignatureReadAs outer ⟨span, .signature parameters⟩ := by
  refine ⟨.uniform rfl fun p hp => ?_, List.forall_mem_flatMap.2 fun p hp => ?_⟩
  · obtain ⟨_, isRest, pattern, fallback, rfl, hpattern, hfallback⟩ := h p hp
    refine .uniform rfl (List.forall_mem_cons.2 ⟨hpattern.readAs, fun n hn => ?_⟩)
    exact hfallback n (Option.mem_toList.1 hn)
  · obtain ⟨_, isRest, pattern, fallback, rfl, hpattern, -⟩ := h p hp
    exact List.forall_mem_singleton.2 hpattern.names

/-- The check behind the body is the second one for the parameters. -/
theorem SignatureReadAs.pass {outer strict unique : Bool} {parameters body : Node}
    (h : SignatureReadAs outer parameters) (hbody : BodyReadAs outer body strict)
    (hcheck : checkParameters outer strict unique parameters = .ok ()) :
    ParametersPass outer body parameters.parameterPatterns := by
  refine ⟨h.names, ?_⟩
  simp only [Node.parameterPatterns]
  simp only [checkParameters] at hcheck
  split
  case h_1 parameters hshape =>
    rw [hshape] at hcheck
    have hlate := passesLate_of_checkParameterNames hcheck
    simp only [List.forall_mem_flatMap, hbody.strict] at hlate ⊢
    intro p hp pattern hpattern
    have hlate := hlate p hp
    split at hpattern
    case h_1 hshape =>
      rw [List.mem_singleton.1 hpattern]
      rw [hshape] at hlate
      exact namesPassLate_of_boundNames hlate
    case h_2 => cases hpattern
  case h_2 => exact List.forall_mem_nil _

/-- The parameters and the body of a function as parts. -/
theorem readAs_parts {outer strict : Bool} {parameters body : Node}
    (hparameters : SignatureReadAs outer parameters) (hbody : BodyReadAs outer body strict) :
    ∀ p ∈ [(outer, parameters), bodyPart outer body], p.2.ReadAs p.1 :=
  List.forall_mem_cons.2 ⟨hparameters.readAs, List.forall_mem_singleton.2 hbody.readAs⟩

variable {rules : Rules} (hr : rules.Track)

include hr

theorem readAs_signature (f : Frame) : (signature rules f).Ensures (SignatureReadAs f.strict) := by
  refine .bind_any fun start => .bind_any fun _ => ?_
  refine .bind (.iterate (I := fun read => ∀ p ∈ read, ParameterReadAs f.strict p)
    (Q := fun reversed => ∀ p ∈ reversed, ParameterReadAs f.strict p)
    (fun read hread => ?_) rules.bound nofun) fun reversed hreversed => ?_
  · refine .bind_any fun place => .bind_any fun _ => .ite (fun _ => .pure hread) fun _ => ?_
    refine .bind_any fun isRest => .bind (hr.pattern f.parameters _) fun pattern hpattern => ?_
    refine .bind (hr.fallback f.parameters _) fun fallback hfallback => .bind_any fun span => ?_
    have hparameter : ParameterReadAs f.strict ⟨span, .parameter isRest pattern fallback⟩ :=
      ⟨span, isRest, pattern, fallback, rfl, hpattern, hfallback⟩
    have hread := List.forall_mem_cons.2 ⟨hparameter, hread⟩
    extract_lets read goesOn
    have hgoesOn (more : Bool) : (goesOn more).Ensures
        (Round.Holds (∀ p ∈ ·, ParameterReadAs f.strict p)
          (∀ p ∈ ·, ParameterReadAs f.strict p)) :=
      .ite (fun _ => .pure hread) fun _ => .bind_any fun _ => .pure hread
    exact .ite (fun _ => hgoesOn false) fun _ => .bind_any hgoesOn
  · exact .bind_any fun span => .pure (.of_parameters (by simpa using hreversed) span)

theorem readAs_statements (f : Frame) :
    (statements rules f).Ensures fun (body, _) => ∀ n ∈ body, ReadAsStatement f.strict n := by
  refine .bind (.iterate (I := fun read => ∀ n ∈ read, ReadAsStatement f.strict n)
    (Q := fun (reversed, _) => ∀ n ∈ reversed, ReadAsStatement f.strict n)
    (fun read hread => ?_) rules.bound nofun)
    fun (reversed, close) h => .pure (by simpa using h)
  refine .bind_any fun close => ?_
  cases close with
  | some close => exact .pure hread
  | none => exact .bind (hr.statement f) fun n hn => .pure (List.forall_mem_cons.2 ⟨hn, hread⟩)

theorem readAs_functionBody (f : Frame) :
    (functionBody rules f).Ensures fun (body, strict) => BodyReadAs f.strict body strict := by
  refine .bind_any fun first => .bind (prologue_tokens _ _) ?_
  rintro ⟨directives, strict⟩ ⟨tokens, htokens, rfl, rfl⟩
  refine .bind (readAs_statements hr _) ?_
  rintro ⟨body, close⟩ hbody
  have hdirective := isStrictBody_block htokens (fun n hn => (hbody n hn).noDirective)
    (first.span.cover close.span)
  refine .pure ⟨by rw [hdirective], ?_⟩
  rw [hdirective]
  refine .uniform rfl (List.forall_mem_append.2 ⟨?_, fun n hn => (hbody n hn).readAs⟩)
  exact List.forall_mem_map.2 fun t _ => .uniform rfl nofun

/-- The parts of a function in code with the frame `outer`. -/
structure PartsReadAs (outer : Bool) (parts : FunctionParts) : Prop where
  readAs : ∀ p ∈ [(outer, parts.parameters), bodyPart outer parts.body], p.2.ReadAs p.1
  pass : ParametersPass outer parts.body parts.parameters.parameterPatterns
  becameStrict : outer = false → isStrictBody parts.body → parts.becameStrict

theorem readAs_functionParts (outer inner : Frame) (hinner : inner.strict = outer.strict)
    (unique : Bool) :
    (functionParts rules outer inner unique).Ensures (PartsReadAs outer.strict) := by
  refine .bind (readAs_signature hr inner) fun parameters hparameters => ?_
  refine .bind (readAs_functionBody hr inner) ?_
  rintro ⟨body, strict⟩ hbody
  rw [hinner] at hparameters hbody
  refine .bind (.check fun _ h => h) fun _ hcheck => .pure
    ⟨readAs_parts hparameters hbody, hparameters.pass hbody hcheck, ?_⟩
  intro houter hdirective
  simp [hbody.strict, houter, hdirective]

/-- A function is read as its frame says if its shape is, made of a name and parts that are. -/
theorem readAs_functionFrom (f : Frame) (passes : String → Prop)
    {checkName : Bool → Option Token → Parse Unit}
    {shape : Bool → Bool → Option Node → Node → Node → Shape Node}
    (hname : ∀ generator t, (checkName generator (some t)).Ensures fun _ => passes t.text)
    {Q : Node → Prop} (h : ∀ span isAsync generator name parameters body,
      FunctionPasses f.strict passes name parameters body →
      (∀ p ∈ each f.strict name.toList ++ [(f.strict, parameters), bodyPart f.strict body],
        p.2.ReadAs p.1) →
      Q ⟨span, shape isAsync generator name parameters body⟩) :
    (functionFrom rules f checkName shape).Ensures Q := by
  refine .bind_any fun start => .bind_any fun isAsync => .bind_any fun _ => ?_
  refine .bind_any fun generator => .bind_any fun name => ?_
  -- The check of the name says nothing where there is none.
  have hcheck : (checkName generator name).Ensures fun _ => ∀ t ∈ name, passes t.text := by
    cases name with
    | none => exact fun _ _ _ _ => nofun
    | some t => exact (hname generator t).mono fun _ ht => by simpa using ht
  refine .bind hcheck fun _ hearly => ?_
  refine .bind (readAs_functionParts hr f (f.function generator isAsync) rfl _)
    fun parts hparts => ?_
  refine .bind (.check fun _ h => h) fun _ hlate => .bind_any fun span =>
    .pure (h _ _ _ _ _ _ ?_ ?_)
  · refine ⟨?_, ?_, hparts.pass⟩
    · rintro n hn name hshape
      obtain ⟨t, ht, rfl⟩ := Option.map_eq_some_iff.1 hn
      cases hshape
      exact hearly t ht
    · rintro n hn name hshape houter hdirective
      obtain ⟨t, rfl, rfl⟩ := Option.map_eq_some_iff.1 hn
      cases hshape
      simp only [checkStrictName, hparts.becameStrict houter hdirective, if_true] at hlate
      exact ne_yield_of_checkYield hlate rfl
  · refine List.forall_mem_append.2 ⟨readAs_each.2 ?_, hparts.readAs⟩
    simpa using fun t _ => readAs_definitionNode t

theorem readAs_functionExpression (f : Frame) :
    (functionExpression rules f).Ensures (ReadAs f.strict) :=
  readAs_functionFrom hr f (fun name => f.strict → name ≠ "yield")
    (fun _ _ => .check fun _ h => ne_yield_of_checkYield h)
    fun _ _ _ _ _ _ hpasses hparts => .mk hpasses hparts nofun

theorem readAs_functionDeclaration (f : Frame) (needsName : Bool) :
    (functionDeclaration rules f needsName).Ensures (ReadAsStatement f.strict) := by
  have hread : (functionDeclaration rules f needsName).Ensures fun n =>
      WasDeclared f.strict n → ReadAsStatement f.strict n :=
    readAs_functionFrom hr f (Binding.declaration.Passes f.strict)
      (fun _ _ => .check fun _ h => passes_of_checkBinding h)
      fun _ _ _ _ _ _ hpasses hparts hdeclared =>
        ⟨.mk hpasses hparts fun _ => hdeclared, nofun⟩
  obtain ⟨bound, depth, rfl⟩ := hr.made
  intro r n r' hrun
  exact hread r n r' hrun ⟨bound, depth, f, needsName, r, r', rfl, hrun⟩

/-! ## Arrow functions -/

omit hr in
/-- An expression is no body with directives. -/
theorem BodyReadAs.of_expression {outer : Bool} {n : Node} (h : n.ReadAs outer)
    (hfits : n.Fits .expression) : BodyReadAs outer n outer := by
  have hdirective : isStrictBody n = false := by
    have haccepted := hfits.accepted
    unfold isStrictBody
    split
    case h_1 hshape =>
      rw [hshape] at haccepted
      cases haccepted
    case h_2 => rfl
  have hstrict : (outer || isStrictBody n) = outer := by rw [hdirective, Bool.or_false]
  exact ⟨hstrict.symm, hstrict.symm ▸ h⟩

theorem readAs_arrowFunction (f : Frame) (e : Extent) (isAsync : Bool) (start : Source.Span)
    {parameters : Node} (hparameters : SignatureReadAs f.strict parameters) :
    (arrowFunction rules f e isAsync start parameters).Ensures fun o =>
      o.node.ReadAs f.strict := by
  have hbody : (arrowBody rules (f.arrow isAsync) e).Ensures fun read =>
      BodyReadAs f.strict read.1.node read.2 := by
    refine .bind_any fun _ => .ite (fun _ => ?_) fun _ => ?_
    · refine .bind (readAs_functionBody hr (f.arrow isAsync)) ?_
      rintro ⟨body, strict⟩ hbody
      exact .pure hbody
    · exact .bind (hr.expression (f.arrow isAsync) _) fun r hvalue =>
        .pure (.of_expression hvalue.1 hvalue.2)
  refine .bind hbody ?_
  rintro ⟨body, strict⟩ hbody
  exact .bind (.check fun _ h => h) fun _ hcheck => .pure
    (.mk (hparameters.pass hbody hcheck) (readAs_parts hparameters hbody) (by rintro ⟨⟩))

theorem readAs_singleParameterArrow (f : Frame) (e : Extent) (isAsync : Bool)
    (start : Source.Span) (name : Token) :
    (singleParameterArrow rules f e isAsync start name).Ensures fun o =>
      o.node.ReadAs f.strict := by
  refine .bind_any fun _ => .bind_any fun _ => .bind (.check fun _ h => h) fun _ hname => ?_
  refine readAs_arrowFunction hr f e isAsync start
    (.of_parameters (List.forall_mem_singleton.2 ?_) _)
  exact ⟨_, false, _, none, rfl, binds_bindingNode (f := f.arrow isAsync) hname, nofun⟩

theorem readAs_parenthesisedArrow? (f : Frame) (e : Extent) (isAsync : Bool)
    (start : Option Source.Span) :
    (parenthesisedArrow? rules f e isAsync start).Ensures fun o =>
      ∀ operand ∈ o, operand.node.ReadAs f.strict := by
  refine .bind (.attempt (Q := fun read => SignatureReadAs f.strict read.1) ?_)
    fun head hhead => ?_
  · exact .bind (readAs_signature hr { f.arrow isAsync with generator := f.generator })
      fun _ hsignature => .bind_any fun _ => .pure hsignature
  · cases head with
    | none => exact .pure (by simp)
    | some head =>
      obtain ⟨parameters, arrow⟩ := head
      refine .bind_any fun _ => ?_
      refine .bind (readAs_arrowFunction hr f e isAsync _ (hhead _ rfl)) fun o ho => .pure ?_
      simpa using ho

end ScriptMin.Grammar
