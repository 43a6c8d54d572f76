import ScriptMin.Proofs.Strictness.Statement

/-!
# Names that are bound in strict code

Strict code may not bind `eval`, `arguments` or `yield`. A directive makes a function strict, and
with it its name and its parameters, which stand before the directive. The `Strictness` of code says
whether it is strict and whether that is known before it is read. `Node.bindings` lists the names
that are bound in a tree, each with its site and its strictness, and `BoundName.Allowed` says which
of them a program can hold.
-/

namespace ScriptMin

open Grammar

open Rename (isStrictBody)

/-- Whether code is strict, and by what. -/
inductive Strictness where
  /-- It is not strict. -/
  | sloppy
  /-- It is strict by what is around it or stands before it: the mode of the program, a class or a
  directive. -/
  | strict
  /-- It is the name or a parameter of a function in sloppy code that its own directive makes
  strict. -/
  | declared
  /-- It is strict because it is nested in the parameters of such a function. -/
  | nested
deriving DecidableEq, Repr

namespace Strictness

/-- Strict by what stands before it, or not strict. -/
def of (strict : Bool) : Strictness := if strict then .strict else .sloppy

/-- The names of a function in code of strictness `s`, which has a directive of its own or not. -/
def head (s : Strictness) (directive : Bool) : Strictness :=
  match s, directive with
  | .strict, _ => .strict
  | _, true => .declared
  | s, false => s

/-- What is nested in the parameters of such a function. -/
def parameters (s : Strictness) (directive : Bool) : Strictness :=
  match s.head directive with
  | .declared => .nested
  | s => s

/-- The body of such a function. -/
def body (s : Strictness) (directive : Bool) : Strictness :=
  if directive then .strict else s

/-- Children of one strictness. -/
def each {α : Type} (s : Strictness) (cs : List α) : List (Strictness × α) := cs.map (s, ·)

/-- Code of the strictness `s` is read as strict code or not. -/
def Suits (s : Strictness) (strict : Bool) : Prop :=
  match s with
  | .strict => strict = true
  | .sloppy | .nested => strict = false
  | .declared => False

variable {s : Strictness} {strict : Bool}

theorem suits_of (strict : Bool) : (of strict).Suits strict := by
  cases strict <;> rfl

theorem Suits.parameters (h : s.Suits strict) (directive : Bool) :
    (s.parameters directive).Suits strict := by
  cases s with
  | strict => exact h
  | sloppy | nested => cases directive <;> exact h
  | declared => exact h.elim

theorem Suits.body (h : s.Suits strict) (directive : Bool) :
    (s.body directive).Suits (strict || directive) := by
  cases directive with
  | true => exact Bool.or_true strict
  | false => exact (Bool.or_false strict).symm ▸ h

end Strictness

/-! ## The strictness of the children -/

section Parts

variable {α β : Type} (isStrict : α → Bool) (f : α → β)

/-- The parts of a function, beside its name. `isStrict` tells a body with a directive of its
own. -/
def Strictness.parts (s : Strictness) (parameters body : α) : List (Strictness × α) :=
  [(s.parameters (isStrict body), parameters), (s.body (isStrict body), body)]

def MemberValue.strictnesses (s : Strictness) : MemberValue α → List (Strictness × α)
  | .getter body => [(s.body (isStrict body), body)]
  | .method _ _ parameters body | .setter parameters body => s.parts isStrict parameters body
  | .property initializer => s.each initializer.toList

/-- The children of a node of strictness `s`, each with its own. Functions can be strict by
themselves and classes always are. -/
def Shape.strictnesses (s : Strictness) : Shape α → List (Strictness × α)
  | .functionDeclaration _ _ name parameters body | .functionExpression _ _ name parameters body =>
    s.each name.toList ++ s.parts isStrict parameters body
  | .arrowFunction _ parameters body => s.parts isStrict parameters body
  | .classDeclaration name parent members | .classExpression name parent members =>
    Strictness.strict.each name.toList ++ Strictness.strict.each parent.toList ++
      members.flatMap fun m =>
        Strictness.strict.each m.key.children ++ m.value.strictnesses isStrict .strict
  | .objectMember (.valued key value) => s.each key.children ++ value.strictnesses isStrict s
  | shape => s.each shape.children

variable {isStrict f}

theorem Shape.strictnesses_uniform {shape : Shape α} (h : shape.isUniform) (s : Strictness) :
    shape.strictnesses isStrict s = s.each shape.children := by
  cases shape
  case objectMember content =>
    cases content <;> first | rfl | cases h
  all_goals first | rfl | cases h

@[simp] theorem Strictness.each_map (s : Strictness) (cs : List α) :
    s.each (cs.map f) = (s.each cs).map (Prod.map id f) := by
  simp [each, Function.comp_def]

variable {isStrict : β → Bool}

theorem MemberValue.strictnesses_map (s : Strictness) (v : MemberValue α) :
    (v.map f).strictnesses isStrict s =
      (v.strictnesses (isStrict ∘ f) s).map (Prod.map id f) := by
  cases v <;> simp [map, strictnesses, Strictness.parts, toList_optionMap]

/-- A map keeps the strictness of the children. -/
theorem Shape.strictnesses_map (s : Strictness) (shape : Shape α) :
    (shape.map f).strictnesses isStrict s =
      (shape.strictnesses (isStrict ∘ f) s).map (Prod.map id f) := by
  cases shape
  case functionDeclaration | functionExpression | arrowFunction =>
    simp [map, strictnesses, Strictness.parts, toList_optionMap]
  case classDeclaration | classExpression =>
    simp [map, strictnesses, toList_optionMap, List.map_flatMap, List.flatMap_map,
      ClassMember.map, Key.children_map, MemberValue.strictnesses_map]
  case objectMember content =>
    cases content <;>
      simp [map, strictnesses, ObjectMember.map, ObjectMember.children, children,
        Key.children_map, MemberValue.strictnesses_map, Strictness.each]
  all_goals exact (congrArg s.each (children_map f _)).trans (s.each_map _)

end Parts

/-! ## Names -/

/-- Where a name is bound. -/
inductive BindingSite where
  | variableName
  | parameterName
  | catchParameter
  | importAlias
  | className
  | functionDeclaration
  | functionExpression
deriving DecidableEq, Repr

/-- A name that is bound somewhere, with the strictness of its place. -/
structure BoundName where
  name : String
  site : BindingSite
  strictness : Strictness
deriving DecidableEq, Repr

/-- Strict code binds neither `yield` nor `eval` and `arguments`, but for three cases. The name of a
function expression may be one of the last two, and so may the name of a function declaration in
sloppy code that its own directive makes strict. What is nested in the parameters of a function was
read before the directive of the function, and is not checked again. -/
def BoundName.Allowed (b : BoundName) : Prop :=
  match b.strictness with
  | .sloppy | .nested => True
  | .strict => b.name ≠ "yield" ∧ (isEvalOrArguments b.name → b.site = .functionExpression)
  | .declared =>
    b.name ≠ "yield" ∧
      (isEvalOrArguments b.name → b.site = .functionExpression ∨ b.site = .functionDeclaration)

/-- The names that a pattern binds. -/
def Strictness.named (s : Strictness) (site : BindingSite) (pattern : Node) : List BoundName :=
  pattern.boundNames.map fun (name, _) => ⟨name, site, s⟩

/-- The name of a function or a class. -/
def Strictness.defined (s : Strictness) (site : BindingSite) (name : Option Node) :
    List BoundName :=
  name.toList.flatMap fun n =>
    match n.shape with
    | .definitionName name => [⟨name, site, s⟩]
    | _ => []

/-- The names of parameters before a body. -/
def Strictness.parameterNames (s : Strictness) (patterns : List Node) (body : Node) :
    List BoundName :=
  patterns.flatMap ((s.head (isStrictBody body)).named .parameterName)

def MemberValue.binds (s : Strictness) : MemberValue Node → List BoundName
  | .method _ _ parameters body => s.parameterNames parameters.parameterPatterns body
  | .setter parameter body => s.parameterNames [parameter] body
  | _ => []

/-- The names that a node of strictness `s` binds. -/
def Shape.binds (s : Strictness) : Shape Node → List BoundName
  | .variableDeclaration _ declarators =>
    declarators.flatMap fun d => s.named .variableName d.pattern
  | .catchClause pattern _ => pattern.toList.flatMap (s.named .catchParameter)
  | .importDeclaration defaultName names _ =>
    (defaultName.toList ++ names.toList.flatMap ModuleNames.children).flatMap
      (s.named .importAlias)
  | .functionDeclaration _ _ name parameters body =>
    (s.head (isStrictBody body)).defined .functionDeclaration name ++
      s.parameterNames parameters.parameterPatterns body
  | .functionExpression _ _ name parameters body =>
    (s.head (isStrictBody body)).defined .functionExpression name ++
      s.parameterNames parameters.parameterPatterns body
  | .arrowFunction _ parameters body => s.parameterNames parameters.parameterPatterns body
  | .classDeclaration name _ members | .classExpression name _ members =>
    Strictness.strict.defined .className name ++ members.flatMap fun m => m.value.binds .strict
  | .objectMember (.valued _ value) => value.binds s
  | _ => []

theorem Shape.binds_uniform {shape : Shape Node} (h : shape.isUniform) (s : Strictness) :
    shape.binds s = [] := by
  cases shape
  case objectMember content =>
    cases content <;> first | rfl | cases h
  all_goals first | rfl | cases h

namespace Node

/-- The names that are bound in a tree of strictness `s`. -/
def bindings (n : Node) : Strictness → List BoundName :=
  n.fold fun n children s =>
    n.shape.binds s ++ (children.strictnesses (fun c => isStrictBody c.1) s).flatMap
      fun (s, _, bindings) => bindings s

theorem bindings_eq (n : Node) (s : Strictness) :
    n.bindings s = n.shape.binds s ++
      (n.shape.strictnesses isStrictBody s).flatMap fun (s, c) => c.bindings s := by
  unfold bindings
  rw [fold_eq, Shape.strictnesses_map, List.flatMap_map]
  rfl

end Node

/-! ## Names that have passed their checks -/

section Allowed

variable {s : Strictness} {outer : Bool} {body : Node}

theorem allowed_named (hs : s.Suits outer) (site : BindingSite) {pattern : Node}
    (h : NamesPass .declaration outer pattern) : ∀ b ∈ s.named site pattern, b.Allowed := by
  refine List.forall_mem_map.2 fun name hname => ?_
  have hpasses := h name hname
  cases s with
  | strict => exact ⟨(hpasses hs).1, by simp [(hpasses hs).2 rfl]⟩
  | sloppy | nested => trivial
  | declared => exact hs.elim

/-- A parameter has passed two checks. -/
theorem allowed_parameterNames (hs : s.Suits outer) {patterns : List Node}
    (h : ParametersPass outer body patterns) :
    ∀ b ∈ s.parameterNames patterns body, b.Allowed := by
  refine List.forall_mem_flatMap.2 fun pattern hpattern => ?_
  refine List.forall_mem_map.2 fun name hname => ?_
  have hearly := h.early pattern hpattern name hname
  have hlate := h.late pattern hpattern name hname
  cases s with
  | strict =>
    obtain rfl : outer = true := hs
    exact ⟨(hearly rfl).1, by simp [(hlate rfl).2]⟩
  | sloppy | nested =>
    obtain rfl : outer = false := hs
    cases hdirective : isStrictBody body with
    | true =>
      have hlate := hlate hdirective
      exact ⟨hlate.1 rfl, by simp [hlate.2]⟩
    | false => trivial
  | declared => exact hs.elim

theorem allowed_defined {site : BindingSite} {name : Option Node} {passes : String → Prop}
    (h : ∀ n ∈ name, Defines n passes)
    (hallowed : ∀ text, passes text → BoundName.Allowed ⟨text, site, s⟩) :
    ∀ b ∈ s.defined site name, b.Allowed := by
  refine List.forall_mem_flatMap.2 fun n hn => ?_
  have hpasses := h n (Option.mem_toList.1 hn)
  split
  case h_1 text hshape => exact List.forall_mem_singleton.2 (hallowed text (hpasses text hshape))
  case h_2 => nofun

/-- The name of a function is checked for `yield` again behind the body, and for nothing else. -/
theorem allowed_functionName (hs : s.Suits outer) {site : BindingSite} {name : Option Node}
    (hsite : site = .functionExpression ∨ site = .functionDeclaration) {passes : String → Prop}
    (hpasses : ∀ text, passes text → outer →
      text ≠ "yield" ∧ (isEvalOrArguments text → site = .functionExpression))
    {parameters : Node} (h : FunctionPasses outer passes name parameters body) :
    ∀ b ∈ (s.head (isStrictBody body)).defined site name, b.Allowed := by
  cases s with
  | strict => exact allowed_defined h.early fun text htext => hpasses text htext hs
  | sloppy | nested =>
    cases hdirective : isStrictBody body with
    | true => exact allowed_defined h.late fun text htext => ⟨htext hs hdirective, fun _ => hsite⟩
    | false => exact allowed_defined h.early fun _ _ => trivial
  | declared => exact hs.elim

theorem allowed_memberBinds (hs : s.Suits outer) {v : MemberValue Node} (h : v.Checked outer) :
    ∀ b ∈ v.binds s, b.Allowed := by
  cases v with
  | getter | property => nofun
  | method | setter => exact allowed_parameterNames hs h

/-- What has passed its checks in the frame of a node is allowed where it stands. -/
theorem allowed_binds (hs : s.Suits outer) {shape : Shape Node} (h : shape.Checked outer) :
    ∀ b ∈ shape.binds s, b.Allowed := by
  by_cases huniform : shape.isUniform
  · rw [Shape.binds_uniform huniform]
    nofun
  · cases shape
    case variableDeclaration =>
      exact List.forall_mem_flatMap.2 fun d hd => allowed_named hs _ (h d hd)
    case catchClause =>
      exact List.forall_mem_flatMap.2 fun n hn => allowed_named hs _ (h n (Option.mem_toList.1 hn))
    case importDeclaration =>
      exact List.forall_mem_flatMap.2 fun n hn => allowed_named hs _ (h n hn)
    case functionDeclaration =>
      refine List.forall_mem_append.2 ⟨?_, allowed_parameterNames hs h.parameters⟩
      refine allowed_functionName hs (.inr rfl) (fun text hpasses houter => ?_) h
      obtain ⟨hyield, hother⟩ := hpasses houter
      exact ⟨hyield, by simp [hother rfl]⟩
    case functionExpression =>
      refine List.forall_mem_append.2 ⟨?_, allowed_parameterNames hs h.parameters⟩
      refine allowed_functionName hs (.inl rfl) (fun text hyield houter => ?_) h
      exact ⟨hyield houter, fun _ => rfl⟩
    case arrowFunction => exact allowed_parameterNames hs h
    case classDeclaration | classExpression =>
      refine List.forall_mem_append.2 ⟨allowed_defined h.1 fun text hpasses => ?_, ?_⟩
      · exact ⟨(hpasses rfl).1, by simp [(hpasses rfl).2 rfl]⟩
      · have hclass : Strictness.strict.Suits true := rfl
        exact List.forall_mem_flatMap.2 fun m hm => allowed_memberBinds hclass (h.2 m hm)
    case objectMember content =>
      cases content with
      | valued => exact allowed_memberBinds hs h
      | shorthand | spread => exact absurd rfl huniform
    all_goals exact absurd rfl huniform

end Allowed

/-! ## Trees that are read -/

/-- Each child of some strictness is a part that is read as such code is. -/
def Covers (read : List (Bool × Node)) (children : List (Strictness × Node)) : Prop :=
  ∀ p ∈ children, ∃ q ∈ read, p.1.Suits q.1 ∧ p.2 = q.2

namespace Covers

variable {read read' : List (Bool × Node)} {children children' : List (Strictness × Node)}
  {s : Strictness} {strict : Bool}

theorem append (h : Covers read children) (h' : Covers read' children') :
    Covers (read ++ read') (children ++ children') := by
  rintro p hp
  obtain hp | hp := List.mem_append.1 hp
  · obtain ⟨q, hq, hpq⟩ := h p hp
    exact ⟨q, List.mem_append_left _ hq, hpq⟩
  · obtain ⟨q, hq, hpq⟩ := h' p hp
    exact ⟨q, List.mem_append_right _ hq, hpq⟩

theorem flatMap {α : Type} {f : α → List (Bool × Node)} {g : α → List (Strictness × Node)}
    (h : ∀ x, Covers (f x) (g x)) (xs : List α) : Covers (xs.flatMap f) (xs.flatMap g) := by
  rintro p hp
  obtain ⟨x, hx, hp⟩ := List.mem_flatMap.1 hp
  obtain ⟨q, hq, hpq⟩ := h x p hp
  exact ⟨q, List.mem_flatMap.2 ⟨x, hx, hq⟩, hpq⟩

theorem each (hs : s.Suits strict) (ns : List Node) : Covers (each strict ns) (s.each ns) := by
  rintro p hp
  obtain ⟨n, hn, rfl⟩ := List.mem_map.1 hp
  exact ⟨(strict, n), List.mem_map_of_mem hn, hs, rfl⟩

theorem body (hs : s.Suits strict) (body : Node) :
    Covers [bodyPart strict body] [(s.body (isStrictBody body), body)] := by
  rintro _ (_ | ⟨_, ⟨⟩⟩)
  exact ⟨_, List.mem_cons_self, hs.body _, rfl⟩

theorem parts (hs : s.Suits strict) (parameters body : Node) :
    Covers [(strict, parameters), bodyPart strict body] (s.parts isStrictBody parameters body) :=
  (each (hs.parameters _) [parameters]).append (Covers.body hs body)

theorem member (hs : s.Suits strict) (v : MemberValue Node) :
    Covers (v.readParts strict) (v.strictnesses isStrictBody s) := by
  cases v with
  | getter body => exact Covers.body hs body
  | method _ _ parameters body | setter parameters body => exact parts hs parameters body
  | property initializer => exact each hs _

/-- The strictness of the children goes with the frames that they are read in. -/
theorem shape (hs : s.Suits strict) (shape : Shape Node) :
    Covers (shape.readParts strict) (shape.strictnesses isStrictBody s) := by
  have hclass : Strictness.strict.Suits true := rfl
  cases shape
  case functionDeclaration | functionExpression => exact (each hs _).append (parts hs _ _)
  case arrowFunction => exact parts hs _ _
  case classDeclaration | classExpression =>
    refine ((each hclass _).append (each hclass _)).append (flatMap (fun m => ?_) _)
    exact (each hclass _).append (member hclass _)
  case objectMember content =>
    cases content with
    | valued => exact (each hs _).append (member hs _)
    | shorthand | spread => exact each hs _
  all_goals exact each hs _

end Covers

/-- Code that is read binds only what its strictness allows. -/
theorem Node.ReadAs.allowed {strict : Bool} {n : Node} (h : n.ReadAs strict) :
    ∀ s : Strictness, s.Suits strict → ∀ b ∈ n.bindings s, b.Allowed := by
  induction h with
  | mk checked parts declared ih =>
    intro s hs
    rw [Node.bindings_eq]
    refine List.forall_mem_append.2 ⟨allowed_binds hs checked, ?_⟩
    refine List.forall_mem_flatMap.2 fun p hp => ?_
    obtain ⟨q, hq, hsuits, hnode⟩ := Covers.shape hs _ p hp
    have hallowed := ih q hq p.1 hsuits
    rw [← hnode] at hallowed
    exact hallowed

namespace Program

/-- The names that a program binds. -/
def bindings (p : Program) : List BoundName := p.root.bindings (.of p.strict)

/-- A program that is read binds only what the strictness of each place allows. -/
theorem bindings_allowed {mode : Mode} {source : List Char} {p : Program}
    (h : parse mode source = .ok p) : ∀ b ∈ p.bindings, b.Allowed :=
  (readAs_of_parse h).allowed _ (Strictness.suits_of _)

/-- A function that its own directive makes strict, with a name in its parameters that only sloppy
code may bind. -/
theorem bindings_allowed_directive :
    ∃ p, parse .global
        "function f(a=(yield)=>a)\x7b\"use strict\";try\x7b\x7dcatch(e)\x7b\x7d\x7d".toList =
        .ok p ∧
      p.bindings = [⟨"f", .functionDeclaration, .declared⟩, ⟨"a", .parameterName, .declared⟩,
        ⟨"yield", .parameterName, .nested⟩, ⟨"e", .catchParameter, .strict⟩] ∧
      ∀ b ∈ p.bindings, b.Allowed := by
  have hrun : (parse .global
      "function f(a=(yield)=>a)\x7b\"use strict\";try\x7b\x7dcatch(e)\x7b\x7d\x7d".toList
      ).toOption.any (fun p => p.bindings == [⟨"f", .functionDeclaration, .declared⟩,
        ⟨"a", .parameterName, .declared⟩, ⟨"yield", .parameterName, .nested⟩,
        ⟨"e", .catchParameter, .strict⟩]) = true := by
    decide +kernel
  obtain ⟨p, hparse, hcheck⟩ := exists_of_parse _ hrun
  exact ⟨p, hparse, eq_of_beq hcheck, bindings_allowed hparse⟩

end Program

end ScriptMin
