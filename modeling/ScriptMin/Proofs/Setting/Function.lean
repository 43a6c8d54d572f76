import ScriptMin.Grammar.Arrow
import ScriptMin.Grammar.Class
import ScriptMin.Proofs.Setting.Pattern

/-!
# Functions and classes are legal where they stand

A function, a member of a class or an arrow function opens a setting of its own, which goes with the
frame that its parameters and its body are read in. The heads and keys of classes stay in the
setting of the class.
-/

namespace ScriptMin.Grammar

open Parse Node

variable {rules : Rules} {f : Frame} {s : Setting}

theorem legal_definitionNode (t : Token) : (definitionNode t).Legal s :=
  legal_plain rfl ⟨trivial, trivial⟩ nofun

theorem stands_prologue (bound : Nat) (strict : Bool) :
    (prologue bound strict).Ensures fun (directives, _) => ∀ n ∈ directives, n.Legal s := by
  refine .bind_any fun directives => .pure ?_
  simp only [List.forall_mem_map]
  exact fun t _ => legal_plain rfl ⟨trivial, trivial⟩ nofun

variable (hr : rules.Stands)

include hr

/-! ## Functions -/

/-- Parameters are read in the frame that says so. -/
theorem stands_signature (h : Admits s f.parameters) :
    (signature rules f).Ensures (Legal s.inner) := by
  refine .bind_any fun start => .bind_any fun _ => ?_
  refine .bind (.iterate (I := fun read => ∀ p ∈ read, p.Legal s.inner)
    (Q := fun reversed => ∀ p ∈ reversed, p.Legal s.inner)
    (fun read hread => ?_) rules.bound nofun) fun reversed hreversed => ?_
  · refine .bind_any fun place => .bind_any fun _ => .ite (fun _ => .pure hread) fun _ => ?_
    refine .bind_any fun isRest => .bind (hr.pattern _ h) fun pattern hpattern => ?_
    refine .bind (hr.fallback h _) fun fallback hfallback => .bind_any fun span => ?_
    have hparameter : Legal s.inner ⟨span, .parameter isRest pattern fallback⟩ :=
      legal_plain rfl ⟨trivial, trivial⟩
        (by simpa [Shape.children] using ⟨hpattern, hfallback⟩)
    have hread := List.forall_mem_cons.2 ⟨hparameter, hread⟩
    extract_lets read goesOn
    have hgoesOn (more : Bool) : (goesOn more).Ensures
        (Round.Holds (∀ p ∈ ·, p.Legal s.inner) (∀ p ∈ ·, p.Legal s.inner)) :=
      .ite (fun _ => .pure hread) fun _ => .bind_any fun _ => .pure hread
    exact .ite (fun _ => hgoesOn false) fun _ => .bind_any hgoesOn
  · refine .bind_any fun span => .pure (legal_plain rfl ⟨trivial, trivial⟩ ?_)
    simpa [Shape.children] using hreversed

theorem stands_statements (h : Hosts s f) :
    (statements rules f).Ensures fun (body, _) => ∀ n ∈ body, n.Legal s := by
  refine .bind (.iterate (I := fun read => ∀ n ∈ read, n.Legal s)
    (Q := fun (reversed, _) => ∀ n ∈ reversed, n.Legal s)
    (fun read hread => ?_) rules.bound nofun)
    fun (reversed, close) h => .pure (by simpa using h)
  refine .bind_any fun close => ?_
  cases close with
  | some close => exact .pure hread
  | none => exact .bind (hr.statement h) fun n hn => .pure (List.forall_mem_cons.2 ⟨hn, hread⟩)

theorem stands_functionBody (h : Hosts s.inner f) :
    (functionBody rules f).Ensures fun (body, _) => body.Legal s := by
  refine .bind_any fun first => .bind (stands_prologue (s := s.inner) _ _) ?_
  rintro ⟨directives, strict⟩ hdirectives
  refine .bind (stands_statements hr (h.withStrict strict)) ?_
  rintro ⟨body, close⟩ hbody
  refine .pure (legal_plain rfl ⟨trivial, trivial⟩ ?_)
  exact List.forall_mem_append.2 ⟨hdirectives, hbody⟩

/-- The parts of a function stand in the setting inside it. -/
theorem stands_functionParts {inside : Setting} (hinside : inside.inner = inside)
    {inner : Frame} (h : Hosts inside inner) (outer : Frame) (unique : Bool) :
    (functionParts rules outer inner unique).Ensures fun parts =>
      Settled (inside.parts parts.parameters parts.body) := by
  have hparameters := h.toAdmits.parameters inner.generator
  refine .bind (stands_signature hr hparameters) fun parameters hparameters => ?_
  rw [← hinside] at h
  refine .bind (stands_functionBody hr h) ?_
  rintro ⟨body, strict⟩ hbody
  rw [Setting.inner_parameters, hinside] at hparameters
  exact .bind_any fun _ => .pure (settled_cons.2 ⟨hparameters, settled_cons.2 ⟨hbody, settled_nil⟩⟩)

/-- A function is legal if its shape is, made of parts that are legal inside it. -/
theorem stands_functionFrom (f : Frame) (checkName : Bool → Option Token → Parse Unit)
    {shape : Bool → Bool → Option Node → Node → Node → Shape Node}
    (h : ∀ span isAsync generator name parameters body, (∀ n ∈ name, n.Legal s.inner) →
      Settled ((Setting.ofFunction isAsync generator).parts parameters body) →
      Legal s ⟨span, shape isAsync generator name parameters body⟩) :
    (functionFrom rules f checkName shape).Ensures (Legal s) := by
  refine .bind_any fun start => .bind_any fun isAsync => .bind_any fun _ => ?_
  refine .bind_any fun generator => .bind_any fun name => .bind_any fun _ => ?_
  refine .bind (stands_functionParts hr rfl (.ofFunction f isAsync generator) _ _)
    fun parts hparts => ?_
  refine .bind_any fun _ => .bind_any fun span => .pure (h _ _ _ _ _ _ ?_ hparts)
  simpa using fun t _ => legal_definitionNode t

theorem stands_functionExpression (f : Frame) :
    (functionExpression rules f).Ensures (Legal s) :=
  stands_functionFrom hr f _ fun _ _ _ _ _ _ hname hparts =>
    legal_mk ⟨trivial, trivial⟩ (settled_append.2 ⟨by simpa using hname, hparts⟩)

theorem stands_functionDeclaration (f : Frame) (needsName : Bool) :
    (functionDeclaration rules f needsName).Ensures (Legal s) :=
  stands_functionFrom hr f _ fun _ _ _ _ _ _ hname hparts =>
    legal_mk ⟨trivial, trivial⟩ (settled_append.2 ⟨by simpa using hname, hparts⟩)

/-! ## Members -/

/-- The setting of the value of a member without parameters. -/
def MemberHost.field (host : MemberHost) (s : Setting) : Setting :=
  match host with
  | .object => s.inner
  | .classBody => .ofField

theorem stands_getter (field : Setting) (f : Frame) :
    (getter rules f).Ensures fun v => Settled (v.around field) := by
  refine .bind_any fun _ => .bind_any fun _ => ?_
  have hmethod : Hosts (Setting.ofMethod false false).inner (f.method false false) := .ofMethod ..
  refine .bind (stands_functionBody hr hmethod) ?_
  rintro ⟨body, strict⟩ hbody
  exact .pure (settled_cons.2 ⟨hbody, settled_nil⟩)

theorem stands_setter (field : Setting) (f : Frame) :
    (setter rules f).Ensures fun v => Settled (v.around field) := by
  have hmethod : Hosts (Setting.ofMethod false false).inner (f.method false false) := .ofMethod ..
  have hparameters := hmethod.toAdmits.parameters false
  refine .bind_any fun _ => .bind (hr.pattern _ hparameters) fun parameter hparameter => ?_
  refine .bind_any fun _ => .bind (stands_functionBody hr hmethod) ?_
  rintro ⟨body, strict⟩ hbody
  exact .bind_any fun _ => .pure (settled_cons.2 ⟨hparameter, settled_cons.2 ⟨hbody, settled_nil⟩⟩)

theorem stands_method (field : Setting) (f : Frame) (isAsync generator : Bool) :
    (method rules f isAsync generator).Ensures fun v => Settled (v.around field) :=
  .bind (stands_functionParts hr rfl (.ofMethod f isAsync generator) _ _) fun _ hparts =>
    .pure hparts

theorem stands_property (h : Admits s f) (host : MemberHost) (first : Token) (key : Key Node) :
    (property rules f host first key).Ensures fun v => Settled (v.around (host.field s)) := by
  have hvalue (r : Reading) (h : r.node.Legal (host.field s)) :
      Settled ((MemberValue.property (some r.node)).around (host.field s)) :=
    settled_cons.2 ⟨h, settled_nil⟩
  unfold property
  extract_lets bare extent read
  have hbare (u : Unit) : (bare u).Ensures fun v => Settled (v.around (host.field s)) :=
    .pure settled_nil
  have hread (isBare : Bool) :
      (read isBare).Ensures fun v => Settled (v.around (host.field s)) := by
    refine .ite (fun _ => ?_) fun _ => .bind_any fun _ => ?_
    · refine .ite (fun _ => .ite (fun _ => ?_) fun _ => ?_) fun _ => hbare ()
      · exact .bind_any hbare
      · exact .bind_any fun _ => .bind_unexpected
    · cases host with
      | object => exact .bind (hr.expression _ h) fun r hnode => .pure (hvalue r hnode)
      | classBody =>
        exact .bind (hr.expression _ (.ofField f)) fun r hnode => .pure (hvalue r hnode)
  cases key with
  | direct text => exact .bind_any fun t => hread _
  | computed expression => exact hread false

theorem stands_member (h : Admits s f) (host : MemberHost) :
    (member rules f host).Ensures fun (key, value) =>
      (∀ c ∈ key.children, c.Legal s.inner) ∧ Settled (value.around (host.field s)) := by
  refine .bind_any fun modifier => ?_
  extract_lets read
  have hread (u : Unit) : (read u).Ensures fun (key, value) =>
      (∀ c ∈ key.children, c.Legal s.inner) ∧ Settled (value.around (host.field s)) := by
    refine .bind_any fun generator => .bind_any fun first => ?_
    refine .bind (stands_key hr h) fun key hkey => ?_
    split
    case h_1 => exact .bind (stands_getter hr _ f) fun v hv => .pure ⟨hkey, hv⟩
    case h_2 => exact .bind (stands_setter hr _ f) fun v hv => .pure ⟨hkey, hv⟩
    case h_3 => exact .bind (stands_method hr _ f _ _) fun v hv => .pure ⟨hkey, hv⟩
    case h_4 =>
      extract_lets readValue
      have hvalue (isMethod : Bool) : (readValue isMethod).Ensures fun (key, value) =>
          (∀ c ∈ key.children, c.Legal s.inner) ∧ Settled (value.around (host.field s)) :=
        .ite (fun _ => .bind (stands_method hr _ f _ _) fun v hv => .pure ⟨hkey, hv⟩)
          fun _ => .bind (stands_property hr h _ _ _) fun v hv => .pure ⟨hkey, hv⟩
      exact .ite (fun _ => hvalue true) fun _ => .bind_any hvalue
  refine .ite (fun _ => .bind_any fun _ => .ite (fun _ => ?_) fun _ => hread ()) fun _ => hread ()
  exact .bind_any fun _ => .bind_unexpected

/-! ## Classes -/

theorem stands_classBody (h : Admits s f) :
    (classBody rules f).Ensures fun (members, _) =>
      ∀ m ∈ members, Settled (ClassMember.around s.inner m) := by
  refine .bind_any fun _ => ?_
  refine .bind (.iterate (I := fun read => ∀ m ∈ read, Settled (ClassMember.around s.inner m))
    (Q := fun reversed => ∀ m ∈ reversed, Settled (ClassMember.around s.inner m))
    (fun read hread => ?_) rules.bound nofun)
    fun reversed hreversed => .bind_any fun close => .pure (by simpa using hreversed)
  refine .bind_any fun _ => .ite (fun _ => .pure hread) fun _ => ?_
  refine .bind_any fun _ => .ite (fun _ => .pure hread) fun _ => .bind_any fun isStatic => ?_
  refine .bind (stands_member hr h .classBody) ?_
  rintro ⟨key, value⟩ ⟨hkey, hvalue⟩
  have hmember : Settled (ClassMember.around s.inner ⟨key, isStatic, value⟩) :=
    settled_append.2 ⟨settled_each.2 hkey, hvalue⟩
  exact .bind_any fun _ => .pure (List.forall_mem_cons.2 ⟨hmember, hread⟩)

/-- A class is legal if its shape is, made of parts that are. -/
theorem stands_classFrom (h : Admits s f) (needsName : Bool)
    {shape : Option Node → Option Node → List (ClassMember Node) → Shape Node}
    (hshape : ∀ span name parent members, (∀ n ∈ name, n.Legal s.inner) →
      (∀ n ∈ parent, n.Legal s.inner) → (∀ m ∈ members, Settled (ClassMember.around s.inner m)) →
      Legal s ⟨span, shape name parent members⟩) :
    (classFrom rules f needsName shape).Ensures (Legal s) := by
  refine .bind_any fun first => .bind_any fun name => ?_
  extract_lets rest body
  have hrest (parent : Option Node) (hparent : ∀ n ∈ parent, n.Legal s.inner) :
      (rest parent).Ensures (Legal s) := by
    refine .bind (stands_classBody hr h.classBody) ?_
    rintro ⟨members, close⟩ hmembers
    refine .pure (hshape _ _ _ _ ?_ hparent hmembers)
    simpa using fun t _ => legal_definitionNode t
  have hbody (u : Unit) : (body u).Ensures (Legal s) := by
    refine .bind_any fun hasParent => ?_
    refine .ite (fun _ => ?_) fun _ => hrest none nofun
    refine .bind (hr.whole h.classBody _) fun parent hparent => hrest (some parent) ?_
    simpa using hparent
  cases name with
  | some t => exact .bind_any hbody
  | none =>
    refine .ite (fun _ => ?_) fun _ => hbody ()
    exact .bind_any fun _ => .bind_unexpected

theorem stands_classExpression (h : Admits s f) : (classExpression rules f).Ensures (Legal s) :=
  stands_classFrom hr h _ fun _ _ _ _ hname hparent hmembers =>
    legal_mk ⟨trivial, trivial⟩ (by simpa [Shape.around] using ⟨hname, hparent, hmembers⟩)

theorem stands_classDeclaration (h : Admits s f) (needsName : Bool) :
    (classDeclaration rules f needsName).Ensures (Legal s) :=
  stands_classFrom hr h _ fun _ _ _ _ hname hparent hmembers =>
    legal_mk ⟨trivial, trivial⟩ (by simpa [Shape.around] using ⟨hname, hparent, hmembers⟩)

/-! ## Arrow functions -/

/-- What makes an arrow function: its parameters, and a body that is read inside it. -/
theorem stands_arrowFunction (h : Admits s f) (e : Extent) (isAsync : Bool) (start : Source.Span)
    {parameters : Node} (hparameters : parameters.Legal (s.ofArrow isAsync).parameters) :
    (arrowFunction rules f e isAsync start parameters).Ensures fun o => o.node.Legal s := by
  have hinside := h.ofArrow isAsync
  have hbody : (arrowBody rules (f.arrow isAsync) e).Ensures fun read =>
      read.1.node.Legal (s.ofArrow isAsync) := by
    refine .bind_any fun _ => .ite (fun _ => ?_) fun _ => ?_
    · have hbody : Hosts (s.ofArrow isAsync).inner (f.arrow isAsync) := hinside
      refine .bind (stands_functionBody hr hbody) ?_
      rintro ⟨body, strict⟩ hbody
      exact .pure hbody
    · exact .bind (hr.expression _ hinside.toAdmits) fun r hnode => .pure hnode
  refine .bind hbody ?_
  rintro ⟨body, strict⟩ hbody
  refine .bind_any fun _ => .pure (legal_mk ⟨trivial, trivial⟩ ?_)
  exact settled_cons.2 ⟨hparameters, settled_cons.2 ⟨hbody, settled_nil⟩⟩

theorem stands_singleParameterArrow (h : Admits s f) (e : Extent) (isAsync : Bool)
    (start : Source.Span) (name : Token) :
    (singleParameterArrow rules f e isAsync start name).Ensures fun o => o.node.Legal s := by
  refine .bind_any fun _ => .bind_any fun _ => .bind_any fun _ => ?_
  refine stands_arrowFunction hr h e isAsync start (legal_plain rfl ⟨trivial, trivial⟩ ?_)
  refine List.forall_mem_singleton.2 (legal_plain rfl ⟨trivial, trivial⟩ ?_)
  exact List.forall_mem_singleton.2 (legal_bindingNode name)

theorem stands_parenthesisedArrow? (h : Admits s f) (e : Extent) (isAsync : Bool)
    (start : Option Source.Span) :
    (parenthesisedArrow? rules f e isAsync start).Ensures fun o =>
      ∀ operand ∈ o, operand.node.Legal s := by
  -- The frame of the parameters has the generator of the code around, but it is one of parameters.
  have hinside := (h.ofArrow isAsync).toAdmits.parameters f.generator
  refine .bind (.attempt
    (Q := fun (parameters, _) => parameters.Legal (s.ofArrow isAsync).parameters) ?_)
    fun head hhead => ?_
  · exact .bind (stands_signature hr hinside) fun _ hsignature => .bind_any fun _ =>
      .pure hsignature
  · cases head with
    | none => exact .pure nofun
    | some head =>
      obtain ⟨parameters, arrow⟩ := head
      refine .bind_any fun _ => ?_
      refine .bind (stands_arrowFunction hr h e isAsync _ (hhead _ rfl)) fun o ho => .pure ?_
      simpa using ho

end ScriptMin.Grammar
