import ScriptMin.Grammar.Class
import ScriptMin.Proofs.Elsewhere.Tree

/-!
# Patterns, functions and classes elsewhere

What the readers of keys, patterns, parameters, bodies and members give depends on the text ahead
alone. `Rules.Agree` is what a construct assumes of the constructs inside it.
-/

namespace ScriptMin.Grammar

open Parse Node

/-! ## The constructs inside one another -/

/-- The same expression, and a semicolon inserted after both or after none. -/
structure Reading.Alike (a b : Reading) : Prop where
  node : a.node.Alike b.node
  inserted : a.inserted = b.inserted

/-- The constructs agree. The bounds on repetitions may differ. -/
structure Rules.Agree (rules rules' : Rules) : Prop where
  expression (f : Frame) (e : Extent) :
    (rules.expression f e).Agrees (rules'.expression f e) Reading.Alike
  statement (f : Frame) : (rules.statement f).Agrees (rules'.statement f) Node.Alike
  pattern (f : Frame) (kind : Binding) :
    (rules.pattern f kind).Agrees (rules'.pattern f kind) Node.Alike
  construct (f : Frame) (t u : Token) :
    (rules.construct f t).Agrees (rules'.construct f u) Node.Alike

/-- Nodes that may be missing. -/
abbrev OptionsAlike (o o' : Option Node) : Prop := o.map bare = o'.map bare

/-- Nodes in a row. -/
abbrev ListsAlike (ns ms : List Node) : Prop := ns.map bare = ms.map bare

theorem ListsAlike.cons {ns ms : List Node} {n m : Node} (hn : n.Alike m) (h : ListsAlike ns ms) :
    ListsAlike (n :: ns) (m :: ms) := List.cons_eq_cons.2 ⟨hn, h⟩

theorem ListsAlike.reverse {ns ms : List Node} (h : ListsAlike ns ms) :
    ListsAlike ns.reverse ms.reverse := by
  simpa [ListsAlike] using h

theorem ListsAlike.of_forall₂ {ns ms : List Node} (h : List.Forall₂ Node.Alike ns ms) :
    ListsAlike ns ms := by
  induction h with
  | nil => rfl
  | cons hn _ ih => exact ih.cons hn

abbrev KeysAlike (k l : Key Node) : Prop := k.map bare = l.map bare

abbrev ValuesAlike (v w : MemberValue Node) : Prop := v.map bare = w.map bare

theorem bindingNode_alike {t u : Token} (h : t.Alike u) :
    (bindingNode t).Alike (bindingNode u) := by
  obtain ⟨s⟩ := h
  exact Node.Alike.mk rfl

variable {rules rules' : Rules} (hr : rules.Agree rules')

namespace Rules.Agree

include hr

theorem whole (f : Frame) (stop : Punctuator) :
    (rules.whole f stop).Agrees (rules'.whole f stop) Node.Alike :=
  (hr.expression f _).bind fun _ _ h => .pure h.node

theorem single (f : Frame) (stops : List Punctuator) :
    (rules.single f stops).Agrees (rules'.single f stops) Node.Alike :=
  (hr.expression f _).bind fun _ _ h => .pure h.node

theorem fallback (f : Frame) (stop : Punctuator) :
    (rules.fallback f stop).Agrees (rules'.fallback f stop) OptionsAlike := by
  refine (Agrees.tookPunctuator _).bind_eq fun _ => .ite (fun _ => ?_) fun _ => .pure rfl
  exact (hr.single f _).bind fun _ _ h => .pure (congrArg some h)

theorem parenthesised (f : Frame) :
    (rules.parenthesised f).Agrees (rules'.parenthesised f) Node.Alike :=
  (Agrees.expectPunctuator _).bind fun _ _ _ => (hr.whole f _).bind fun _ _ h =>
    (Agrees.expectPunctuator _).bind fun _ _ _ => .pure h

end Rules.Agree

/-! ## Keys and patterns -/

theorem checksAlike_number (f : Frame) {t u : Token} (h : t.Alike u) :
    ChecksAlike (checkNumber f t) (checkNumber f u) := by
  obtain ⟨s⟩ := h
  exact .ite (fun _ => .error rfl) fun _ => .ok trivial

theorem agrees_patternName (f : Frame) (kind : Binding) :
    (patternName f kind).Agrees (patternName f kind) Node.Alike :=
  (Agrees.expectIn _).bind_token fun t s =>
    (Agrees.check (checksAlike_binding f kind (by rfl))).bind_any fun _ _ =>
      .pure (bindingNode_alike (.at s))

include hr

theorem agrees_key (f : Frame) : (key rules f).Agrees (key rules' f) KeysAlike := by
  refine (Agrees.tookPunctuator _).bind_eq fun _ => .ite (fun _ => ?_) fun _ => ?_
  · exact (hr.whole f _).bind fun _ _ h => (Agrees.expectPunctuator _).bind_any fun _ _ =>
      .pure (congrArg Key.computed h)
  · exact (Agrees.expectIn _).bind_token fun t s =>
      (Agrees.check (checksAlike_number f (.at s))).bind_any fun _ _ => .pure rfl

theorem agrees_patternProperty (f : Frame) (kind : Binding) {first first' : Token}
    (hfirst : first.Alike first') :
    (patternProperty rules f kind first).Agrees (patternProperty rules' f kind first')
      Node.Alike := by
  obtain ⟨s⟩ := hfirst
  refine (agrees_key hr f).bind fun key key' hkey => (Agrees.tookPunctuator _).bind_eq fun _ => ?_
  extract_lets rest rest'
  have hrest (x y : Node × Bool) (h : x.1.Alike y.1 ∧ x.2 = y.2) :
      (rest x).Agrees (rest' y) Node.Alike := by
    obtain ⟨target, shorthand⟩ := x
    obtain ⟨target', shorthand'⟩ := y
    obtain ⟨htarget, rfl⟩ := h
    exact (hr.fallback f _).bind fun _ _ hfallback =>
      .pure (Node.Alike.mk (by simp only [Shape.map, hkey, htarget, hfallback]))
  have hunexpected : (do let x ← unexpected (← peek); rest x).Agrees
      (do let x ← unexpected (← peek); rest' x) Node.Alike :=
    Agrees.peek.bind fun _ _ ht => .bind_unexpected ht
  refine .ite (fun _ => ?_) fun _ => ?_
  · exact (hr.pattern f kind).bind fun _ _ h => .bind_pure (hrest (_, false) (_, false) ⟨h, rfl⟩)
  cases key with
  | direct text =>
    cases key' with
    | direct text' =>
      refine .ite (fun _ => ?_) fun _ => hunexpected
      exact (Agrees.check (checksAlike_binding f kind (by rfl))).bind_any fun _ _ =>
        .bind_pure (hrest (_, true) (_, true) ⟨bindingNode_alike (.at s), rfl⟩)
    | computed expression => cases hkey
  | computed expression =>
    cases key' with
    | direct text => cases hkey
    | computed expression' => exact hunexpected

theorem agrees_patternProperties (f : Frame) (kind : Binding) :
    (patternProperties rules f kind).Agrees (patternProperties rules' f kind) PropertiesAlike := by
  refine (Agrees.iterate (I := ListsAlike) (R := PropertiesAlike) (fun read read' hread => ?_) _ _
    (by rfl)).bind fun _ _ h => .pure ⟨ListsAlike.reverse h.1, h.2⟩
  refine Agrees.peek.bind_token fun first s => ?_
  refine .ite (fun _ => .pure (.done ⟨hread, rfl⟩)) fun _ => ?_
  refine (Agrees.tookPunctuator _).bind_eq fun _ => .ite (fun _ => ?_) fun _ => ?_
  · exact (agrees_patternName f kind).bind fun _ _ h => .pure (.done ⟨hread, congrArg some h⟩)
  · refine (agrees_patternProperty hr f kind (.at s)).bind fun _ _ h => ?_
    have hread := ListsAlike.cons h hread
    exact (Agrees.tookPunctuator _).bind_eq fun _ => .ite (fun _ => .pure (.again hread)) fun _ =>
      .pure (.done ⟨hread, rfl⟩)

theorem agrees_patternElements (f : Frame) (kind : Binding) :
    (patternElements rules f kind).Agrees (patternElements rules' f kind) ElementsAlike := by
  let Alike (es es' : List (Option (Defaulted Node))) : Prop :=
    es.map (·.map (·.map bare)) = es'.map (·.map (·.map bare))
  refine (Agrees.iterate (I := Alike) (R := ElementsAlike) (fun read read' hread => ?_) _ _
    (by rfl)).bind fun _ _ h => .pure ⟨by simpa using h.1, h.2⟩
  refine (Agrees.atPunctuator _).bind_eq fun _ => .ite (fun _ => .pure (.done ⟨hread, rfl⟩))
    fun _ => (Agrees.tookPunctuator _).bind_eq fun _ => .ite (fun _ => ?_) fun _ => ?_
  · exact (hr.pattern f kind).bind fun _ _ h => .pure (.done ⟨hread, congrArg some h⟩)
  refine (Agrees.tookPunctuator _).bind_eq fun _ => .ite (fun _ => ?_) fun _ => ?_
  · exact .pure (.again (List.cons_eq_cons.2 ⟨rfl, hread⟩))
  · refine (hr.pattern f kind).bind fun target target' htarget => ?_
    refine (hr.fallback f _).bind fun fallback fallback' hfallback => ?_
    have hread : Alike (some ⟨target, fallback⟩ :: read) (some ⟨target', fallback'⟩ :: read') :=
      List.cons_eq_cons.2 ⟨congrArg some (by simp only [Defaulted.map, htarget, hfallback]), hread⟩
    exact (Agrees.tookPunctuator _).bind_eq fun _ => .ite (fun _ => .pure (.again hread)) fun _ =>
      .pure (.done ⟨hread, rfl⟩)

theorem agrees_pattern (f : Frame) (kind : Binding) :
    (pattern rules f kind).Agrees (pattern rules' f kind) Node.Alike := by
  refine Agrees.peek.bind_token fun t s => ?_
  dsimp only
  split
  case h_1 =>
    refine Agrees.skip.bind_any fun _ _ => (agrees_patternProperties hr f kind).bind fun _ _ h => ?_
    exact (Agrees.expectPunctuator _).bind_any fun _ _ =>
      .pure (Node.Alike.mk (by simp only [Shape.map, h.1, h.2]))
  case h_2 =>
    refine Agrees.skip.bind_any fun _ _ => (agrees_patternElements hr f kind).bind fun _ _ h => ?_
    exact (Agrees.expectPunctuator _).bind_any fun _ _ =>
      .pure (Node.Alike.mk (by simp only [Shape.map, h.1, h.2]))
  case h_3 => exact agrees_patternName f kind

/-! ## Functions -/

theorem agrees_signature (f : Frame) :
    (signature rules f).Agrees (signature rules' f) Node.Alike := by
  refine Agrees.mark.bind_any fun _ _ => (Agrees.expectPunctuator _).bind_any fun _ _ => ?_
  refine (Agrees.iterate (I := ListsAlike) (R := ListsAlike) (fun read read' hread => ?_) _ _
    (by rfl)).bind fun reversed reversed' hreversed => ?_
  · refine Agrees.mark.bind_any fun _ _ => (Agrees.tookPunctuator _).bind_eq fun _ =>
      .ite (fun _ => .pure (.done hread)) fun _ => ?_
    refine (Agrees.tookPunctuator _).bind_eq fun isRest => ?_
    refine (hr.pattern f.parameters _).bind fun pattern pattern' hpattern => ?_
    refine (hr.fallback f.parameters _).bind fun fallback fallback' hfallback => ?_
    refine (Agrees.spanFrom _ _).bind_any fun span span' => ?_
    have hread : ListsAlike (⟨span, .parameter isRest pattern fallback⟩ :: read)
        (⟨span', .parameter isRest pattern' fallback'⟩ :: read') :=
      .cons (Node.Alike.mk (by simp only [Shape.map, hpattern, hfallback])) hread
    extract_lets read goesOn read' goesOn'
    have hgoesOn (more : Bool) : (goesOn more).Agrees (goesOn' more) (Round.Alike _ _) :=
      .ite (fun _ => .pure (.again hread)) fun _ =>
        (Agrees.expectPunctuator _).bind_any fun _ _ => .pure (.done hread)
    exact .ite (fun _ => hgoesOn false) fun _ => (Agrees.tookPunctuator _).bind_eq hgoesOn
  · exact (Agrees.spanFrom _ _).bind_any fun _ _ =>
      .pure (Node.Alike.mk (congrArg Shape.signature hreversed.reverse))

omit hr in
theorem agrees_directive : directive.Agrees directive (Option.Rel Token.Alike) := by
  refine Agrees.mark.bind fun place place' hplace => Agrees.next.bind_token fun t s => ?_
  extract_lets rest rest'
  have hrest (ends : Bool) : (rest ends).Agrees (rest' ends) (Option.Rel Token.Alike) :=
    .ite (fun _ => .pure (.some (.at s))) fun _ =>
      (Agrees.rewind hplace).bind_any fun _ _ => .pure .none
  refine .ite (fun _ => hrest false) fun _ => Agrees.peek.bind_token fun after s => ?_
  dsimp only
  split
  case h_1 => exact Agrees.skip.bind_any fun _ _ => hrest true
  case h_2 | h_3 => exact hrest true
  case h_4 => exact hrest _

/-- Nodes in a row, and the same answer to a question. -/
def BodiesAlike (a b : List Node × Bool) : Prop :=
  ListsAlike a.1 b.1 ∧ a.2 = b.2

omit hr in
theorem agrees_prologue (bound bound' : Nat) (strict : Bool) :
    (prologue bound strict).Agrees (prologue bound' strict) BodiesAlike := by
  refine (Agrees.collect agrees_directive _ _).bind fun ts us h => .pure ?_
  have hsame : ListsAlike (ts.map fun t => ⟨t.span, .directive t.text⟩)
        (us.map fun t => ⟨t.span, .directive t.text⟩) ∧
      ts.any (·.shown == "use strict") = us.any (·.shown == "use strict") := by
    induction h with
    | nil => exact ⟨rfl, rfl⟩
    | cons ht _ ih =>
      obtain ⟨s⟩ := ht
      exact ⟨ih.1.cons (Node.Alike.mk rfl), congrArg (_ || ·) ih.2⟩
  exact ⟨hsame.1, congrArg (strict || ·) hsame.2⟩

theorem agrees_statements (f : Frame) :
    (statements rules f).Agrees (statements rules' f) fun a b => ListsAlike a.1 b.1 := by
  refine (Agrees.iterate (I := ListsAlike) (R := fun a b => ListsAlike a.1 b.1)
    (fun read read' hread => ?_) _ _ (by rfl)).bind fun _ _ h => .pure h.reverse
  refine (Agrees.takeIf _).bind fun _ _ hclose => ?_
  cases hclose with
  | some => exact .pure (.done hread)
  | none => exact (hr.statement f).bind fun _ _ h => .pure (.again (hread.cons h))

theorem agrees_functionBody (f : Frame) :
    (functionBody rules f).Agrees (functionBody rules' f) fun a b =>
      a.1.Alike b.1 ∧ a.2 = b.2 := by
  refine (Agrees.expectPunctuator _).bind_any fun _ _ => (agrees_prologue _ _ _).bind ?_
  rintro ⟨directives, strict⟩ ⟨directives', _⟩ ⟨hdirectives, rfl⟩
  refine (agrees_statements hr _).bind fun _ _ h => .pure ⟨Node.Alike.mk ?_, rfl⟩
  simp only [Shape.map, List.map_append, hdirectives, h]

/-- The same parts of a function. -/
structure FunctionParts.Alike (a b : FunctionParts) : Prop where
  parameters : a.parameters.Alike b.parameters
  body : a.body.Alike b.body
  becameStrict : a.becameStrict = b.becameStrict

theorem agrees_functionParts (outer inner : Frame) (unique : Bool) :
    (functionParts rules outer inner unique).Agrees (functionParts rules' outer inner unique)
      FunctionParts.Alike := by
  refine (agrees_signature hr inner).bind fun _ _ hparameters => ?_
  refine (agrees_functionBody hr inner).bind ?_
  rintro ⟨body, strict⟩ ⟨body', _⟩ ⟨hbody, rfl⟩
  exact (Agrees.check (checksAlike_parameters _ _ _ hparameters)).bind_any fun _ _ =>
    .pure ⟨hparameters, hbody, rfl⟩

omit hr in
theorem checksAlike_strictName {parts parts' : FunctionParts} {name name' : Option Token}
    (hparts : parts.Alike parts') (hname : Option.Rel Token.Alike name name') :
    ChecksAlike (checkStrictName parts name) (checkStrictName parts' name') := by
  cases hname with
  | none => exact .ok trivial
  | some ht =>
    obtain ⟨s⟩ := ht
    unfold checkStrictName
    rw [hparts.becameStrict]
    exact .ite (fun _ => checksAlike_yield _ _ _ rfl) fun _ => .ok trivial

omit hr in
theorem definitionNode_alike {name name' : Option Token} (h : Option.Rel Token.Alike name name') :
    OptionsAlike (name.map definitionNode) (name'.map definitionNode) := by
  cases h with
  | none => rfl
  | some ht =>
    obtain ⟨s⟩ := ht
    exact congrArg some (Node.Alike.mk rfl)

/-- A function is the same elsewhere if the check of its name is and its shape says nothing of
places. -/
theorem agrees_functionFrom (f : Frame) {checkName : Bool → Option Token → Parse Unit}
    {shape : Bool → Bool → Option Node → Node → Node → Shape Node}
    (hcheck : ∀ generator name name', Option.Rel Token.Alike name name' →
      (checkName generator name).Agrees (checkName generator name') fun _ _ => True)
    (hshape : ∀ isAsync generator name parameters body,
      (shape isAsync generator name parameters body).map bare =
        shape isAsync generator (name.map bare) parameters.bare body.bare) :
    (functionFrom rules f checkName shape).Agrees (functionFrom rules' f checkName shape)
      Node.Alike := by
  refine Agrees.mark.bind_any fun _ _ => (Agrees.tookWord _).bind_eq fun isAsync => ?_
  refine (Agrees.expectWord _).bind_any fun _ _ => ?_
  refine (Agrees.tookPunctuator _).bind_eq fun generator => ?_
  refine (Agrees.takeIf _).bind fun name name' hname => ?_
  refine (hcheck generator name name' hname).bind_any fun _ _ => ?_
  refine (agrees_functionParts hr f _ _).bind fun parts parts' hparts => ?_
  refine (Agrees.check (checksAlike_strictName hparts hname)).bind_any fun _ _ => ?_
  refine (Agrees.spanFrom _ _).bind_any fun _ _ => .pure (Node.Alike.mk ?_)
  rw [hshape, hshape, definitionNode_alike hname, hparts.parameters, hparts.body]

theorem agrees_functionExpression (f : Frame) :
    (functionExpression rules f).Agrees (functionExpression rules' f) Node.Alike := by
  refine agrees_functionFrom hr f (fun generator name name' hname => ?_) fun _ _ _ _ _ => rfl
  cases hname with
  | none => exact .pure trivial
  | some ht =>
    obtain ⟨s⟩ := ht
    exact .check (checksAlike_yield _ _ _ rfl)

theorem agrees_functionDeclaration (f : Frame) (needsName : Bool) :
    (functionDeclaration rules f needsName).Agrees (functionDeclaration rules' f needsName)
      Node.Alike := by
  refine agrees_functionFrom hr f (fun generator name name' hname => ?_) fun _ _ _ _ _ => rfl
  cases hname with
  | none =>
    exact .ite (fun _ => Agrees.peek.bind fun _ _ ht => .unexpected ht) fun _ => .pure trivial
  | some ht =>
    obtain ⟨s⟩ := ht
    exact .check (checksAlike_binding _ _ rfl)

/-! ## Members and classes -/

omit hr in
theorem agrees_modifier (host : MemberHost) : (modifier host).Agrees (modifier host) Eq := by
  refine Agrees.mark.bind fun place place' hplace => (Agrees.takeIf _).bind fun _ _ hfirst => ?_
  cases hfirst with
  | none => exact .pure rfl
  | some ht =>
    obtain ⟨s⟩ := ht
    simp only [Option.bind_some]
    split
    case h_1 => exact .pure rfl
    case h_2 m _ =>
      refine Agrees.peek.bind_token fun after s => .ite (fun _ => ?_) fun _ => .pure rfl
      exact (Agrees.rewind hplace).bind_any fun _ _ => .pure rfl

omit hr in
theorem agrees_staticModifier : staticModifier.Agrees staticModifier Eq := by
  refine Agrees.mark.bind fun place place' hplace => (Agrees.tookWord _).bind_eq fun _ =>
    .ite (fun _ => Agrees.peek.bind_token fun t s => ?_) fun _ => .pure rfl
  dsimp only
  split
  case h_5 => exact .pure rfl
  all_goals exact (Agrees.rewind hplace).bind_any fun _ _ => .pure rfl

theorem agrees_getter (f : Frame) : (getter rules f).Agrees (getter rules' f) ValuesAlike := by
  refine (Agrees.expectPunctuator _).bind_any fun _ _ => ?_
  refine (Agrees.expectPunctuator _).bind_any fun _ _ => ?_
  exact (agrees_functionBody hr _).bind fun _ _ h => .pure (congrArg MemberValue.getter h.1)

theorem agrees_setter (f : Frame) : (setter rules f).Agrees (setter rules' f) ValuesAlike := by
  refine (Agrees.expectPunctuator _).bind_any fun _ _ => ?_
  refine (hr.pattern _ _).bind fun parameter parameter' hparameter => ?_
  refine (Agrees.expectPunctuator _).bind_any fun _ _ => (agrees_functionBody hr _).bind ?_
  rintro ⟨body, strict⟩ ⟨body', _⟩ ⟨hbody, rfl⟩
  refine (Agrees.check (checksAlike_parameterNames _ _ _ (boundNames_text hparameter) _)).bind_any
    fun _ _ => .pure ?_
  exact congrArg₂ MemberValue.setter hparameter hbody

theorem agrees_method (f : Frame) (isAsync generator : Bool) :
    (method rules f isAsync generator).Agrees (method rules' f isAsync generator) ValuesAlike :=
  (agrees_functionParts hr f _ _).bind fun _ _ h =>
    .pure (congrArg₂ (MemberValue.method isAsync generator) h.parameters h.body)

theorem agrees_property (f : Frame) (host : MemberHost) {first first' : Token}
    (hfirst : first.Alike first') {key key' : Key Node} (hkey : KeysAlike key key') :
    (property rules f host first key).Agrees (property rules' f host first' key') ValuesAlike := by
  obtain ⟨s⟩ := hfirst
  have hvalue (e : Extent) (f : Frame) :
      (do return .property (some (← rules.expression f e).node) : Parse (MemberValue Node)).Agrees
        (do return .property (some (← rules'.expression f e).node)) ValuesAlike :=
    (hr.expression f e).bind fun _ _ h => .pure (congrArg (MemberValue.property ∘ some) h.node)
  unfold property
  extract_lets shorthand extent rest rest'
  have hrest (isBare : Bool) : (rest isBare).Agrees (rest' isBare) ValuesAlike := by
    refine .ite (fun _ => .ite (fun _ => .ite (fun _ => ?_) fun _ => ?_) fun _ => .pure rfl)
      fun _ => (Agrees.expectPunctuator _).bind_any fun _ _ => ?_
    · exact (Agrees.check (checksAlike_reference _ (by rfl))).bind_any fun _ _ => .pure rfl
    · exact Agrees.peek.bind fun _ _ ht => .bind_unexpected ht
    · cases host
      case object => exact hvalue _ _
      case classBody => exact hvalue _ _
  cases key with
  | direct text =>
    cases key' with
    | direct text' => exact Agrees.peek.bind_token fun _ _ => .bind_pure (hrest _)
    | computed => cases hkey
  | computed expression =>
    cases key' with
    | direct => cases hkey
    | computed expression' => exact .bind_pure (hrest false)

theorem agrees_member (f : Frame) (host : MemberHost) :
    (member rules f host).Agrees (member rules' f host) fun a b =>
      KeysAlike a.1 b.1 ∧ ValuesAlike a.2 b.2 := by
  refine (agrees_modifier host).bind_eq fun modifier => ?_
  extract_lets rest rest'
  have hrest (u u' : Unit) : (rest u).Agrees (rest' u') fun a b =>
      KeysAlike a.1 b.1 ∧ ValuesAlike a.2 b.2 := by
    refine (Agrees.tookPunctuator _).bind_eq fun generator => ?_
    refine Agrees.peek.bind_token fun first s => ?_
    refine (agrees_key hr f).bind fun key key' hkey => ?_
    split
    case h_1 => exact (agrees_getter hr f).bind fun _ _ h => .pure ⟨hkey, h⟩
    case h_2 => exact (agrees_setter hr f).bind fun _ _ h => .pure ⟨hkey, h⟩
    case h_3 => exact (agrees_method hr f _ _).bind fun _ _ h => .pure ⟨hkey, h⟩
    case h_4 =>
      extract_lets valued valued'
      have hvalued (isMethod : Bool) : (valued isMethod).Agrees (valued' isMethod) fun a b =>
          KeysAlike a.1 b.1 ∧ ValuesAlike a.2 b.2 := by
        refine .ite (fun _ => ?_) fun _ => ?_
        · exact (agrees_method hr f _ _).bind fun _ _ h => .pure ⟨hkey, h⟩
        · exact (agrees_property hr f host (.at s) hkey).bind fun _ _ h => .pure ⟨hkey, h⟩
      exact .ite (fun _ => .bind_pure (hvalued true)) fun _ =>
        (Agrees.atPunctuator _).bind_eq hvalued
  refine .ite (fun _ => ?_) fun _ => hrest () ()
  refine (Agrees.atPunctuator _).bind_eq fun _ => .ite (fun _ => ?_) fun _ => hrest () ()
  exact Agrees.peek.bind fun _ _ ht => .bind_unexpected ht

theorem agrees_classBody (f : Frame) :
    (classBody rules f).Agrees (classBody rules' f) fun a b =>
      a.1.map (·.map bare) = b.1.map (·.map bare) := by
  let Alike (ms ms' : List (ClassMember Node)) : Prop := ms.map (·.map bare) = ms'.map (·.map bare)
  refine (Agrees.expectPunctuator _).bind_any fun _ _ => ?_
  refine (Agrees.iterate (I := Alike) (R := Alike) (fun read read' hread => ?_) _ _ (by rfl)).bind
    fun _ _ h => (Agrees.expectPunctuator _).bind_any fun _ _ => .pure ?_
  · refine (Agrees.atPunctuator _).bind_eq fun _ => .ite (fun _ => .pure (.done hread)) fun _ => ?_
    refine (Agrees.tookPunctuator _).bind_eq fun _ => ?_
    refine .ite (fun _ => .pure (.again hread)) fun _ => ?_
    refine agrees_staticModifier.bind_eq fun isStatic => (agrees_member hr f _).bind ?_
    rintro ⟨key, value⟩ ⟨key', value'⟩ ⟨hkey, hvalue⟩
    refine (Agrees.tookPunctuator _).bind_eq fun _ => ?_
    refine .pure (.again (List.cons_eq_cons.2 ⟨?_, hread⟩))
    simp only [ClassMember.map, hkey, hvalue]
  · simpa using h

theorem agrees_classFrom (f : Frame) (needsName : Bool)
    {shape : Option Node → Option Node → List (ClassMember Node) → Shape Node}
    (hshape : ∀ name parent members, (shape name parent members).map bare =
      shape (name.map bare) (parent.map bare) (members.map (·.map bare))) :
    (classFrom rules f needsName shape).Agrees (classFrom rules' f needsName shape)
      Node.Alike := by
  refine (Agrees.expectWord _).bind_any fun _ _ => (Agrees.takeIf _).bind fun name name' hname => ?_
  extract_lets finish rest finish' rest'
  have hfinish (parent parent' : Option Node) (h : OptionsAlike parent parent') :
      (finish parent).Agrees (finish' parent') Node.Alike := by
    refine (agrees_classBody hr _).bind fun _ _ hmembers => .pure (Node.Alike.mk ?_)
    rw [hshape, hshape, definitionNode_alike hname, h, hmembers]
  have hrest (u u' : Unit) : (rest u).Agrees (rest' u') Node.Alike := by
    refine (Agrees.tookWord _).bind_eq fun _ => .ite (fun _ => ?_) fun _ => hfinish none none rfl
    exact (hr.whole _ _).bind fun _ _ h => .bind_pure (hfinish (some _) (some _) (congrArg some h))
  cases hname with
  | none =>
    refine .ite (fun _ => ?_) fun _ => hrest () ()
    exact Agrees.peek.bind fun _ _ ht => .bind_unexpected ht
  | some ht =>
    obtain ⟨s⟩ := ht
    exact (Agrees.check (checksAlike_binding _ _ (by rfl))).bind_any hrest

theorem agrees_classExpression (f : Frame) :
    (classExpression rules f).Agrees (classExpression rules' f) Node.Alike :=
  agrees_classFrom hr f _ fun _ _ _ => rfl

theorem agrees_classDeclaration (f : Frame) (needsName : Bool) :
    (classDeclaration rules f needsName).Agrees (classDeclaration rules' f needsName) Node.Alike :=
  agrees_classFrom hr f _ fun _ _ _ => rfl

end ScriptMin.Grammar
