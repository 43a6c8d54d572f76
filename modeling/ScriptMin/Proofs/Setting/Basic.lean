import ScriptMin.Proofs.Tree.Bodies
import ScriptMin.Proofs.Tree.Induction

/-!
# Where a node stands

A `Setting` tells what is around a node of a tree: the function that it belongs to, and within that
function the labels, the loops and the `switch` statements around it. `Shape.around` hands the
setting of a node on to its children, and `Node.standing` lists all nodes of a tree with theirs.

Some syntax depends on where it stands. `AllowsJump` and `AllowsUse` say what a setting has to have
for the node there, and a tree is `Legal` if every node of it is allowed where it stands.
-/

namespace ScriptMin

/-- A function that code belongs to. The value of a class field is evaluated like the body of a
function, and counts as one. -/
structure Enclosing where
  isAsync : Bool
  generator : Bool
  isField : Bool
deriving DecidableEq, Repr

/-- What is around a node. -/
structure Setting where
  /-- The nearest function around the node. -/
  enclosing : Option Enclosing
  /-- Whether the node stands in the parameters of that function. -/
  inParameters : Bool
  /-- Whether a method, an accessor or a field is around, with nothing but arrow functions and the
  heads and keys of classes in between. -/
  inMember : Bool
  /-- The labels around the node, in the same function. -/
  labels : List String
  /-- The labels that stand directly before the node. -/
  pending : List String
  /-- The labels of the loops in whose bodies the node stands, in the same function. -/
  loopLabels : List String
  /-- Whether the node stands in the body of a loop, in the same function. -/
  inLoop : Bool
  /-- Whether the node stands in a case of a `switch`, in the same function. -/
  inSwitch : Bool
deriving DecidableEq, Repr

namespace Setting

/-- Around a program there is nothing. -/
def topLevel : Setting where
  enclosing := none
  inParameters := false
  inMember := false
  labels := []
  pending := []
  loopLabels := []
  inLoop := false
  inSwitch := false

/-! ## Functions -/

def ofFunction (isAsync generator : Bool) : Setting :=
  { topLevel with enclosing := some ⟨isAsync, generator, false⟩ }

/-- In a method or an accessor. -/
def ofMethod (isAsync generator : Bool) : Setting :=
  { ofFunction isAsync generator with inMember := true }

/-- In the value of a class field. -/
def ofField : Setting :=
  { topLevel with enclosing := some ⟨false, false, true⟩, inMember := true }

/-- In an arrow function, which is in the member that the code around it is in. -/
def ofArrow (s : Setting) (isAsync : Bool) : Setting :=
  { ofFunction isAsync false with inMember := s.inMember }

def parameters (s : Setting) : Setting := { s with inParameters := true }

/-! ## Statements -/

/-- In a statement that is no label. -/
def inner (s : Setting) : Setting := { s with pending := [] }

/-- In the body of a loop, whose labels stand directly before it. -/
def loopBody (s : Setting) : Setting :=
  { s.inner with loopLabels := s.pending ++ s.loopLabels, inLoop := true }

def switchBody (s : Setting) : Setting := { s.inner with inSwitch := true }

/-- Behind a label. -/
def labelled (s : Setting) (label : String) : Setting :=
  { s with labels := label :: s.labels, pending := label :: s.pending }

/-- Children in one setting. -/
def each {α : Type} (s : Setting) (cs : List α) : List (Setting × α) := cs.map (s, ·)

@[simp] theorem inner_inner (s : Setting) : s.inner.inner = s.inner := rfl

@[simp] theorem inner_ofFunction (isAsync generator : Bool) :
    (ofFunction isAsync generator).inner = ofFunction isAsync generator := rfl

@[simp] theorem inner_ofMethod (isAsync generator : Bool) :
    (ofMethod isAsync generator).inner = ofMethod isAsync generator := rfl

@[simp] theorem inner_ofField : ofField.inner = ofField := rfl

@[simp] theorem inner_ofArrow (s : Setting) (isAsync : Bool) :
    (s.ofArrow isAsync).inner = s.ofArrow isAsync := rfl

@[simp] theorem inner_parameters (s : Setting) : s.parameters.inner = s.inner.parameters := rfl

@[simp] theorem inner_loopBody (s : Setting) : s.loopBody.inner = s.loopBody := rfl

@[simp] theorem inner_switchBody (s : Setting) : s.switchBody.inner = s.switchBody := rfl

@[simp] theorem ofArrow_inner (s : Setting) (isAsync : Bool) :
    s.inner.ofArrow isAsync = s.ofArrow isAsync := rfl

/-! ## What a setting allows -/

variable {α : Type}

/-- A jump has a target: a label around it, which for `continue` labels a loop in whose body it
stands, or else a loop or a `switch`. No label stands within another one of its name. -/
def AllowsJump (s : Setting) : Shape α → Prop
  | .breakStatement (some label) => label ∈ s.labels
  | .breakStatement none => s.inLoop ∨ s.inSwitch
  | .continueStatement (some label) => label ∈ s.loopLabels
  | .continueStatement none => s.inLoop
  | .labelledStatement label _ => label ∉ s.labels
  | _ => True

/-- What is tied to a kind of function stands in one of that kind. -/
def AllowsUse (s : Setting) : Shape α → Prop
  | .yieldExpression .. => s.inParameters = false ∧ ∃ e ∈ s.enclosing, e.generator
  | .unary .await _ => ∃ e ∈ s.enclosing, e.isAsync
  | .forLoop (.each _ true _ _) _ => ∃ e ∈ s.enclosing, e.isAsync
  | .superExpression => s.inMember
  | .newTarget => ∃ e, s.enclosing = some e
  | .returnStatement _ => ∃ e ∈ s.enclosing, e.isField = false
  | _ => True

/-- The node is allowed in the setting, whatever its children are. -/
def Allows (s : Setting) (shape : Shape α) : Prop :=
  s.AllowsJump shape ∧ s.AllowsUse shape

end Setting

/-! ## The settings of the children -/

section Around

variable {α β : Type}

/-- The parts of a function, beside its name. -/
def Setting.parts (inside : Setting) (parameters body : α) : List (Setting × α) :=
  [(inside.parameters, parameters), (inside, body)]

/-- The parts of a member of a class or an object. Without parameters, it is evaluated in the
setting `field`. -/
def MemberValue.around (field : Setting) : MemberValue α → List (Setting × α)
  | .getter body => [(.ofMethod false false, body)]
  | .method isAsync generator parameters body =>
    (Setting.ofMethod isAsync generator).parts parameters body
  | .property initializer => field.each initializer.toList
  | .setter parameter body => (Setting.ofMethod false false).parts parameter body

def ClassMember.around (s : Setting) (m : ClassMember α) : List (Setting × α) :=
  s.each m.key.children ++ m.value.around .ofField

def ObjectMember.around (s : Setting) : ObjectMember α → List (Setting × α)
  | .valued key value => s.each key.children ++ value.around s
  | .shorthand _ => []
  | .spread value => [(s, value)]

/-- The children of a node in the setting `s`, each with its own setting. Functions, loops, labels
and `switch` change it, and all other nodes only end a row of labels. -/
def Shape.around (s : Setting) : Shape α → List (Setting × α)
  | .functionDeclaration isAsync generator name parameters body
  | .functionExpression isAsync generator name parameters body =>
    s.inner.each name.toList ++ (Setting.ofFunction isAsync generator).parts parameters body
  | .arrowFunction isAsync parameters body => (s.ofArrow isAsync).parts parameters body
  | .classDeclaration name parent members | .classExpression name parent members =>
    s.inner.each name.toList ++ s.inner.each parent.toList ++
      members.flatMap (ClassMember.around s.inner)
  | .objectMember content => content.around s.inner
  | .forLoop head body => s.inner.each head.children ++ [(s.loopBody, body)]
  | .whileLoop condition body => [(s.inner, condition), (s.loopBody, body)]
  | .doWhileLoop body condition => [(s.loopBody, body), (s.inner, condition)]
  | .labelledStatement label statement => [(s.labelled label, statement)]
  | .switchStatement subject cases => (s.inner, subject) :: s.switchBody.each cases
  | shape => s.inner.each shape.children

/-- Nodes that hand their setting on as it is, but for the labels before them. -/
def Shape.isPlain : Shape α → Bool
  | .functionDeclaration .. | .functionExpression .. | .arrowFunction .. | .classDeclaration ..
  | .classExpression .. | .objectMember _ | .forLoop .. | .whileLoop .. | .doWhileLoop ..
  | .labelledStatement .. | .switchStatement .. => false
  | _ => true

theorem Shape.around_plain {shape : Shape α} (h : shape.isPlain) (s : Setting) :
    shape.around s = s.inner.each shape.children := by
  cases shape <;> first | rfl | cases h

@[simp] theorem Setting.map_snd_each (s : Setting) (cs : List α) :
    (s.each cs).map Prod.snd = cs := by
  simp [each, Function.comp_def]

theorem MemberValue.map_snd_around (field : Setting) (v : MemberValue α) :
    (v.around field).map Prod.snd = v.children := by
  cases v <;> simp [around, children, Setting.parts]

theorem ClassMember.map_snd_around (s : Setting) (m : ClassMember α) :
    (m.around s).map Prod.snd = m.children := by
  simp [around, children, MemberValue.map_snd_around]

theorem ObjectMember.map_snd_around (s : Setting) (m : ObjectMember α) :
    (m.around s).map Prod.snd = m.children := by
  cases m <;> simp [around, children, MemberValue.map_snd_around]

/-- Every child has a setting, and in the order of the source. -/
theorem Shape.map_snd_around (s : Setting) (shape : Shape α) :
    (shape.around s).map Prod.snd = shape.children := by
  by_cases h : shape.isPlain
  · rw [around_plain h, Setting.map_snd_each]
  · cases shape <;>
      first
      | exact absurd rfl h
      | simp [around, children, Setting.parts, ClassMember.map_snd_around,
          ObjectMember.map_snd_around, List.map_flatMap]

theorem Shape.mem_children_of_mem_around {s : Setting} {shape : Shape α} {p : Setting × α}
    (h : p ∈ shape.around s) : p.2 ∈ shape.children := by
  rw [← shape.map_snd_around s]
  exact List.mem_map_of_mem h

@[simp] theorem Setting.each_map (s : Setting) (f : α → β) (cs : List α) :
    s.each (cs.map f) = (s.each cs).map (Prod.map id f) := by
  simp [each, Function.comp_def]

theorem MemberValue.around_map (field : Setting) (f : α → β) (v : MemberValue α) :
    (v.map f).around field = (v.around field).map (Prod.map id f) := by
  cases v <;> simp [map, around, Setting.parts, toList_optionMap]

theorem ClassMember.around_map (s : Setting) (f : α → β) (m : ClassMember α) :
    (m.map f).around s = (m.around s).map (Prod.map id f) := by
  simp [map, around, Key.children_map, MemberValue.around_map]

theorem ObjectMember.around_map (s : Setting) (f : α → β) (m : ObjectMember α) :
    (m.map f).around s = (m.around s).map (Prod.map id f) := by
  cases m <;> simp [map, around, Key.children_map, MemberValue.around_map]

theorem Shape.isPlain_map (f : α → β) (shape : Shape α) :
    (shape.map f).isPlain = shape.isPlain := by
  cases shape <;> rfl

/-- A map keeps the settings. -/
theorem Shape.around_map (s : Setting) (f : α → β) (shape : Shape α) :
    (shape.map f).around s = (shape.around s).map (Prod.map id f) := by
  by_cases h : shape.isPlain
  · have hmap : (shape.map f).isPlain := (shape.isPlain_map f).trans h
    rw [around_plain h, around_plain hmap, children_map, Setting.each_map]
  · cases shape <;>
      first
      | exact absurd rfl h
      | simp [map, around, Setting.parts, toList_optionMap, ClassMember.around_map,
          ObjectMember.around_map, ForHead.children_map, List.map_flatMap, List.flatMap_map]

/-- What a setting allows depends on the node alone. -/
theorem Setting.allows_map (s : Setting) (f : α → β) (shape : Shape α) :
    s.Allows (shape.map f) ↔ s.Allows shape := by
  cases shape
  case forLoop head body =>
    cases head with
    | stepped => exact Iff.rfl
    | each isOf awaits => cases awaits <;> exact Iff.rfl
  case breakStatement label | continueStatement label => cases label <;> exact Iff.rfl
  case unary operator operand => cases operator <;> exact Iff.rfl
  all_goals exact Iff.rfl

end Around

/-! ## Trees -/

namespace Node

/-- A node in the setting `s` and all nodes below it, each with its setting. -/
def standing (n : Node) : Setting → List (Setting × Node) :=
  n.fold fun n children s =>
    (s, n) :: (children.around s).flatMap fun (s, _, standing) => standing s

theorem standing_eq (n : Node) (s : Setting) :
    n.standing s = (s, n) :: (n.shape.around s).flatMap fun (s, c) => c.standing s := by
  unfold standing
  rw [fold_eq, Shape.around_map, List.flatMap_map]
  rfl

/-- Every node of a tree stands somewhere. -/
theorem map_snd_standing (n : Node) (s : Setting) : (n.standing s).map Prod.snd = n.nodes := by
  induction n using Node.induction generalizing s with
  | h n ih =>
    rw [standing_eq, nodes_eq, List.map_cons, List.map_flatMap, ← n.shape.map_snd_around s,
      List.flatMap_map]
    refine congrArg (n :: ·) (List.flatMap_congr fun p hp => ?_)
    exact ih p.2 (Shape.mem_children_of_mem_around hp) p.1

/-- Every node is allowed where it stands. -/
def Legal (s : Setting) (n : Node) : Prop :=
  ∀ p ∈ n.standing s, p.1.Allows p.2.shape

/-- Trees that are legal in their settings. -/
def Settled (ps : List (Setting × Node)) : Prop := ∀ p ∈ ps, p.2.Legal p.1

theorem legal_iff {s : Setting} {n : Node} :
    n.Legal s ↔ s.Allows n.shape ∧ Settled (n.shape.around s) := by
  unfold Legal Settled
  rw [standing_eq, List.forall_mem_cons]
  simp only [List.forall_mem_flatMap]
  exact Iff.rfl

theorem legal_mk {s : Setting} {span : Source.Span} {shape : Shape Node} (hallows : s.Allows shape)
    (haround : Settled (shape.around s)) : Legal s ⟨span, shape⟩ :=
  legal_iff.2 ⟨hallows, haround⟩

/-! ### Trees in one setting -/

section Settled

variable {ps qs : List (Setting × Node)} {s : Setting} {n : Node} {ns : List Node}

@[simp] theorem settled_nil : Settled [] := nofun

@[simp] theorem settled_cons : Settled ((s, n) :: ps) ↔ n.Legal s ∧ Settled ps :=
  List.forall_mem_cons

@[simp] theorem settled_append : Settled (ps ++ qs) ↔ Settled ps ∧ Settled qs :=
  List.forall_mem_append

@[simp] theorem settled_each : Settled (s.each ns) ↔ ∀ n ∈ ns, n.Legal s := by
  simp [Settled, Setting.each]

@[simp] theorem settled_flatMap {α : Type} {f : α → List (Setting × Node)} {xs : List α} :
    Settled (xs.flatMap f) ↔ ∀ x ∈ xs, Settled (f x) :=
  List.forall_mem_flatMap

end Settled

/-- A node that hands its setting on is legal if it is allowed and its children are legal. -/
theorem legal_plain {s : Setting} {span : Source.Span} {shape : Shape Node} (h : shape.isPlain)
    (hallows : s.Allows shape) (hchildren : ∀ c ∈ shape.children, c.Legal s.inner) :
    Legal s ⟨span, shape⟩ := by
  refine legal_mk hallows ?_
  rw [Shape.around_plain h]
  exact settled_each.2 hchildren

theorem Legal.allows {s : Setting} {n : Node} (h : n.Legal s) : s.Allows n.shape :=
  (legal_iff.1 h).1

theorem Legal.around {s : Setting} {n : Node} (h : n.Legal s) : Settled (n.shape.around s) :=
  (legal_iff.1 h).2

/-- The children of a node that hands its setting on. -/
theorem Legal.child {s : Setting} {n c : Node} (h : n.Legal s) (hplain : n.shape.isPlain)
    (hc : c ∈ n.shape.children) : c.Legal s.inner := by
  have haround := h.around
  rw [Shape.around_plain hplain] at haround
  exact settled_each.1 haround c hc

end Node

end ScriptMin
