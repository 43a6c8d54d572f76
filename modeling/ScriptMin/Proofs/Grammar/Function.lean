import ScriptMin.Grammar.Arrow
import ScriptMin.Grammar.Class
import ScriptMin.Proofs.Grammar.Pattern

/-!
# Functions and classes are well formed

Parameters, bodies and members, and the functions and classes that are made of them.
-/

namespace ScriptMin.Grammar

open Parse Node

variable {rules : Rules}

/-- Statements in braces are a statement. -/
theorem Fits.of_body {n : Node} (h : n.Fits .body) : n.Fits .statement := by
  refine ⟨?_, h.wellFormed⟩
  have haccepted := h.accepted
  obtain ⟨span, shape⟩ := n
  cases shape <;> simp_all [Role.accepts, Shape.isStatement]

/-- What can be exported is a statement. -/
theorem Fits.of_exportable {n : Node} (h : n.Fits .exportable) : n.Fits .statement := by
  refine ⟨?_, h.wellFormed⟩
  have haccepted := h.accepted
  obtain ⟨span, shape⟩ := n
  cases shape <;> simp_all [Role.accepts, Shape.isStatement]

theorem fits_definitionNode (t : Token) : (definitionNode t).Fits .definition :=
  fits_mk rfl filled_nil

theorem ensures_prologue (bound : Nat) (strict : Bool) :
    (prologue bound strict).Ensures fun (directives, _) =>
      ∀ n ∈ directives, n.Fits .statement := by
  refine .bind_any fun directives => .pure ?_
  simp only [List.forall_mem_map]
  exact fun t _ => fits_mk rfl filled_nil

variable (hr : rules.Sound)

include hr

/-! ## Functions -/

theorem ensures_signature (f : Frame) : (signature rules f).Ensures (Fits .signature) := by
  refine .bind_any fun start => .bind_any fun _ => ?_
  refine .bind (.iterate (I := fun read => ∀ p ∈ read, p.Fits .parameter)
    (Q := fun reversed => ∀ p ∈ reversed, p.Fits .parameter)
    (fun read hread => ?_) rules.bound nofun) fun reversed hreversed => ?_
  · refine .bind_any fun place => .bind_any fun _ => .ite (fun _ => .pure hread) fun _ => ?_
    refine .bind_any fun isRest => .bind (hr.pattern _ _) fun pattern hpattern => ?_
    refine .bind (hr.fallback _ _) fun fallback hfallback => .bind_any fun span => ?_
    have hread := List.forall_mem_cons (a := ⟨span, .parameter isRest pattern fallback⟩).2
      ⟨fits_mk rfl (by simpa [Shape.places] using ⟨hpattern, hfallback⟩), hread⟩
    extract_lets read goesOn
    have hgoesOn (more : Bool) : (goesOn more).Ensures
        (Round.Holds (∀ p ∈ ·, p.Fits .parameter) (∀ p ∈ ·, p.Fits .parameter)) :=
      .ite (fun _ => .pure hread) fun _ => .bind_any fun _ => .pure hread
    exact .ite (fun _ => hgoesOn false) fun _ => .bind_any hgoesOn
  · exact .bind_any fun span => .pure (fits_mk rfl (by simpa [Shape.places] using hreversed))

theorem ensures_statements (f : Frame) :
    (statements rules f).Ensures fun (body, _) => ∀ n ∈ body, n.Fits .statement := by
  refine .bind (.iterate (I := fun read => ∀ n ∈ read, n.Fits .statement)
    (Q := fun (reversed, _) => ∀ n ∈ reversed, n.Fits .statement)
    (fun read hread => ?_) rules.bound nofun)
    fun (reversed, close) h => .pure (by simpa using h)
  refine .bind_any fun close => ?_
  cases close with
  | some close => exact .pure hread
  | none => exact .bind (hr.statement f) fun n hn => .pure (List.forall_mem_cons.2 ⟨hn, hread⟩)

theorem ensures_functionBody (f : Frame) :
    (functionBody rules f).Ensures fun (body, _) => body.Fits .body := by
  refine .bind_any fun first => .bind (ensures_prologue _ _) ?_
  rintro ⟨directives, strict⟩ hdirectives
  refine .bind (ensures_statements hr _) ?_
  rintro ⟨body, close⟩ hbody
  refine .pure (fits_mk rfl ?_)
  simpa [Shape.places, or_imp, forall_and] using ⟨hdirectives, hbody⟩

theorem ensures_functionParts (outer inner : Frame) (unique : Bool) :
    (functionParts rules outer inner unique).Ensures fun parts =>
      parts.parameters.Fits .signature ∧ parts.body.Fits .body := by
  refine .bind (ensures_signature hr _) fun parameters hparameters => ?_
  refine .bind (ensures_functionBody hr _) ?_
  rintro ⟨body, strict⟩ hbody
  exact .bind_any fun _ => .pure ⟨hparameters, hbody⟩

/-- A function fits a role if its shape does, made of parts that fit theirs. -/
theorem ensures_functionFrom {role : Role} (f : Frame)
    (checkName : Bool → Option Token → Parse Unit)
    {shape : Bool → Bool → Option Node → Node → Node → Shape Node}
    (h : ∀ span isAsync generator name parameters body, (∀ n ∈ name, n.Fits .definition) →
      parameters.Fits .signature → body.Fits .body →
      Fits role ⟨span, shape isAsync generator name parameters body⟩) :
    (functionFrom rules f checkName shape).Ensures (Fits role) := by
  refine .bind_any fun start => .bind_any fun isAsync => .bind_any fun _ => ?_
  refine .bind_any fun generator => .bind_any fun name => .bind_any fun _ => ?_
  refine .bind (ensures_functionParts hr _ _ _) fun parts ⟨hparameters, hbody⟩ => ?_
  refine .bind_any fun _ => .bind_any fun span => .pure (h _ _ _ _ _ _ ?_ hparameters hbody)
  simpa using fun t _ => fits_definitionNode t

theorem ensures_functionExpression (f : Frame) :
    (functionExpression rules f).Ensures (Fits .expression) :=
  ensures_functionFrom hr f _ fun _ _ _ _ _ _ hname hparameters hbody =>
    fits_mk rfl (by simpa [Shape.places] using ⟨hname, hparameters, hbody⟩)

theorem ensures_functionDeclaration (f : Frame) (needsName : Bool) :
    (functionDeclaration rules f needsName).Ensures (Fits .exportable) :=
  ensures_functionFrom hr f _ fun _ _ _ _ _ _ hname hparameters hbody =>
    fits_mk rfl (by simpa [Shape.places] using ⟨hname, hparameters, hbody⟩)

/-! ## Members -/

theorem ensures_getter (f : Frame) : (getter rules f).Ensures fun v => Filled v.places := by
  refine .bind_any fun _ => .bind_any fun _ => .bind (ensures_functionBody hr _) ?_
  rintro ⟨body, strict⟩ hbody
  exact .pure (by simpa [MemberValue.places] using hbody)

theorem ensures_setter (f : Frame) : (setter rules f).Ensures fun v => Filled v.places := by
  refine .bind_any fun _ => .bind (hr.pattern _ _) fun parameter hparameter => ?_
  refine .bind_any fun _ => .bind (ensures_functionBody hr _) ?_
  rintro ⟨body, strict⟩ hbody
  exact .bind_any fun _ => .pure (by simpa [MemberValue.places] using ⟨hparameter, hbody⟩)

theorem ensures_method (f : Frame) (isAsync generator : Bool) :
    (method rules f isAsync generator).Ensures fun v => Filled v.places :=
  .bind (ensures_functionParts hr _ _ _) fun parts ⟨hparameters, hbody⟩ =>
    .pure (by simpa [MemberValue.places] using ⟨hparameters, hbody⟩)

theorem ensures_property (f : Frame) (host : MemberHost) (first : Token) (key : Key Node) :
    (property rules f host first key).Ensures fun v => Filled v.places := by
  have hvalue (r : Reading) (h : r.node.Fits .expression) :
      Filled (MemberValue.property (some r.node)).places := by
    simpa [MemberValue.places] using h
  unfold property
  extract_lets bare extent read
  have hbare (u : Unit) : (bare u).Ensures fun v => Filled v.places := .pure filled_nil
  have hread (isBare : Bool) : (read isBare).Ensures fun v => Filled v.places := by
    refine .ite (fun _ => ?_) fun _ => .bind_any fun _ => ?_
    · refine .ite (fun _ => .ite (fun _ => ?_) fun _ => ?_) fun _ => hbare ()
      · exact .bind_any hbare
      · exact .bind_any fun _ => .bind_unexpected
    · cases host with
      | object => exact .bind (hr.expression _ _) fun r h => .pure (hvalue r h)
      | classBody => exact .bind (hr.expression _ _) fun r h => .pure (hvalue r h)
  cases key with
  | direct text => exact .bind_any fun t => hread _
  | computed expression => exact hread false

theorem ensures_member (f : Frame) (host : MemberHost) :
    (member rules f host).Ensures fun (key, value) => Filled key.places ∧ Filled value.places := by
  refine .bind_any fun modifier => ?_
  extract_lets read
  have hread (u : Unit) :
      (read u).Ensures fun (key, value) => Filled key.places ∧ Filled value.places := by
    refine .bind_any fun generator => .bind_any fun first => ?_
    refine .bind (ensures_key hr f) fun key hkey => ?_
    split
    case h_1 => exact .bind (ensures_getter hr f) fun v hv => .pure ⟨hkey, hv⟩
    case h_2 => exact .bind (ensures_setter hr f) fun v hv => .pure ⟨hkey, hv⟩
    case h_3 => exact .bind (ensures_method hr f _ _) fun v hv => .pure ⟨hkey, hv⟩
    case h_4 =>
      extract_lets readValue
      have hvalue (isMethod : Bool) : (readValue isMethod).Ensures fun (key, value) =>
          Filled key.places ∧ Filled value.places :=
        .ite (fun _ => .bind (ensures_method hr f _ _) fun v hv => .pure ⟨hkey, hv⟩)
          fun _ => .bind (ensures_property hr f _ _ _) fun v hv => .pure ⟨hkey, hv⟩
      exact .ite (fun _ => hvalue true) fun _ => .bind_any hvalue
  refine .ite (fun _ => .bind_any fun _ => .ite (fun _ => ?_) fun _ => hread ()) fun _ => hread ()
  exact .bind_any fun _ => .bind_unexpected

/-! ## Classes -/

theorem ensures_classBody (f : Frame) :
    (classBody rules f).Ensures fun (members, _) => ∀ m ∈ members, Filled m.places := by
  refine .bind_any fun _ => ?_
  refine .bind (.iterate (I := fun read => ∀ m ∈ read, Filled m.places)
    (Q := fun reversed => ∀ m ∈ reversed, Filled m.places)
    (fun read hread => ?_) rules.bound nofun)
    fun reversed hreversed => .bind_any fun _ => .pure (by simpa using hreversed)
  refine .bind_any fun _ => .ite (fun _ => .pure hread) fun _ => ?_
  refine .bind_any fun _ => .ite (fun _ => .pure hread) fun _ => ?_
  refine .bind_any fun isStatic => .bind (ensures_member hr f _) ?_
  rintro ⟨key, value⟩ ⟨hkey, hvalue⟩
  refine .bind_any fun _ => .pure (List.forall_mem_cons.2 ⟨?_, hread⟩)
  simpa [ClassMember.places] using ⟨hkey, hvalue⟩

/-- A class fits a role if its shape does, made of parts that fit theirs. -/
theorem ensures_classFrom {role : Role} (f : Frame) (needsName : Bool)
    {shape : Option Node → Option Node → List (ClassMember Node) → Shape Node}
    (h : ∀ span name parent members, (∀ n ∈ name, n.Fits .definition) →
      (∀ n ∈ parent, n.Fits .expression) → (∀ m ∈ members, Filled (ClassMember.places m)) →
      Fits role ⟨span, shape name parent members⟩) :
    (classFrom rules f needsName shape).Ensures (Fits role) := by
  refine .bind_any fun first => .bind_any fun name => ?_
  extract_lets rest body
  have hrest (parent : Option Node) (hparent : ∀ n ∈ parent, n.Fits .expression) :
      (rest parent).Ensures (Fits role) := by
    refine .bind (ensures_classBody hr _) ?_
    rintro ⟨members, close⟩ hmembers
    refine .pure (h _ _ _ _ ?_ hparent hmembers)
    simpa using fun t _ => fits_definitionNode t
  have hbody (u : Unit) : (body u).Ensures (Fits role) := by
    refine .bind_any fun hasParent => ?_
    refine .ite (fun _ => ?_) fun _ => hrest none nofun
    exact .bind (hr.whole _ _) fun parent hparent => hrest (some parent) (by simpa using hparent)
  cases name with
  | some t => exact .bind_any hbody
  | none =>
    refine .ite (fun _ => ?_) fun _ => hbody ()
    exact .bind_any fun _ => .bind_unexpected

theorem ensures_classExpression (f : Frame) :
    (classExpression rules f).Ensures (Fits .expression) :=
  ensures_classFrom hr f _ fun _ _ _ _ hname hparent hmembers =>
    fits_mk rfl (by simpa [Shape.places] using ⟨hname, hparent, hmembers⟩)

theorem ensures_classDeclaration (f : Frame) (needsName : Bool) :
    (classDeclaration rules f needsName).Ensures (Fits .exportable) :=
  ensures_classFrom hr f _ fun _ _ _ _ hname hparent hmembers =>
    fits_mk rfl (by simpa [Shape.places] using ⟨hname, hparent, hmembers⟩)

/-! ## Arrow functions -/

theorem ensures_arrowFunction (f : Frame) (e : Extent) (isAsync : Bool) (start : Source.Span)
    {parameters : Node} (hparameters : parameters.Fits .signature) :
    (arrowFunction rules f e isAsync start parameters).Ensures fun o =>
      o.node.Fits .expression := by
  have hbody : (arrowBody rules (f.arrow isAsync) e).Ensures fun read =>
      read.1.node.Fits .arrowBody := by
    refine .bind_any fun _ => .ite (fun _ => ?_) fun _ => ?_
    · refine .bind (ensures_functionBody hr _) ?_
      rintro ⟨body, strict⟩ hbody
      exact .pure ⟨by simpa [Role.accepts] using .inr hbody.accepted, hbody.wellFormed⟩
    · refine .bind (hr.expression _ _) fun r h => .pure ⟨?_, h.wellFormed⟩
      simpa [Role.accepts] using .inl h.accepted
  refine .bind hbody ?_
  rintro ⟨body, strict⟩ hbody
  refine .bind_any fun _ => .pure (fits_mk rfl ?_)
  simpa [Shape.places] using ⟨hparameters, hbody⟩

theorem ensures_singleParameterArrow (f : Frame) (e : Extent) (isAsync : Bool)
    (start : Source.Span) (name : Token) :
    (singleParameterArrow rules f e isAsync start name).Ensures fun o =>
      o.node.Fits .expression := by
  refine .bind_any fun _ => .bind_any fun _ => .bind_any fun _ => ?_
  refine ensures_arrowFunction hr f e isAsync start (fits_mk rfl ?_)
  have hname : (bindingNode name).Fits .target := fits_bindingNode name rfl
  have hplaces : Filled (Shape.places (.parameter false (bindingNode name) none)) := by
    simpa [Shape.places] using hname
  simpa [Shape.places] using fits_mk rfl hplaces

theorem ensures_parenthesisedArrow? (f : Frame) (e : Extent) (isAsync : Bool)
    (start : Option Source.Span) :
    (parenthesisedArrow? rules f e isAsync start).Ensures fun o =>
      ∀ operand ∈ o, operand.node.Fits .expression := by
  refine .bind (.attempt (Q := fun (parameters, _) => parameters.Fits .signature) ?_)
    fun head hhead => ?_
  · exact .bind (ensures_signature hr _) fun _ h => .bind_any fun _ => .pure h
  · cases head with
    | none => exact .pure nofun
    | some head =>
      obtain ⟨parameters, arrow⟩ := head
      refine .bind_any fun _ => ?_
      refine .bind (ensures_arrowFunction hr f e isAsync _ (hhead _ rfl)) fun o ho => .pure ?_
      simpa using ho

end ScriptMin.Grammar
