import ScriptMin.Proofs.Strictness.Statement
import ScriptMin.Proofs.Tree.Interface

/-!
# The strictness of function declarations, found twice

Whether code is strict is found out once while it is read, by the frames, and again by the renamer,
from the tree. Both start from the mode of the program, and both take a class and the body of a
function with a directive for strict code. They part in two places. A directive comes too late for
the reader, who is past the parameters of the function by then, while the renamer looks for it
first; and the renamer does not look for the directive of an accessor. A `Verdict` on some code is
what both say of it, and `Node.functionSites` lists the function declarations of a tree with the
verdicts on the code around them.
-/

namespace ScriptMin

open Grammar

open Rename (isStrictBody)

/-- What is said of some code while it is read and by the renamer. -/
inductive Verdict where
  /-- Both say that it is not strict. -/
  | sloppy
  /-- Both say that it is strict. -/
  | strict
  /-- It was read before the directive that makes it strict for the renamer: it is nested in the
  parameters of a function in sloppy code with a directive of its own. -/
  | late
  /-- It is strict by a directive that the renamer does not look for: it is in the body of an
  accessor in sloppy code with a directive of its own. -/
  | unseen
deriving DecidableEq, Repr

namespace Verdict

/-- The verdict of both on a program. -/
def of (strict : Bool) : Verdict := if strict then .strict else .sloppy

/-- Whether the code is strict while it is read. -/
def read : Verdict → Bool
  | .strict | .unseen => true
  | .sloppy | .late => false

/-- Whether the code is strict for the renamer. -/
def walked : Verdict → Bool
  | .strict | .late => true
  | .sloppy | .unseen => false

/-- The verdict on the parameters of a function in code with this verdict, which has a directive of
its own or not. -/
def parameters (v : Verdict) (directive : Bool) : Verdict :=
  match v, directive with
  | .sloppy, true => .late
  | .unseen, true => .strict
  | v, _ => v

/-- The verdict on the body of such a function. -/
def body (v : Verdict) (directive : Bool) : Verdict :=
  if directive then .strict else v

/-- The verdict on the body of such an accessor. -/
def accessorBody (v : Verdict) (directive : Bool) : Verdict :=
  match v, directive with
  | .sloppy, true => .unseen
  | .late, true => .strict
  | v, _ => v

/-- Children with one verdict. -/
def each {α : Type} (v : Verdict) (cs : List α) : List (Verdict × α) := cs.map (v, ·)

variable (v : Verdict) (directive : Bool)

@[simp] theorem read_of (strict : Bool) : (of strict).read = strict := by
  cases strict <;> rfl

@[simp] theorem walked_of (strict : Bool) : (of strict).walked = strict := by
  cases strict <;> rfl

@[simp] theorem read_parameters : (v.parameters directive).read = v.read := by
  cases v <;> cases directive <;> rfl

@[simp] theorem walked_parameters : (v.parameters directive).walked = (v.walked || directive) := by
  cases v <;> cases directive <;> rfl

@[simp] theorem read_body : (v.body directive).read = (v.read || directive) := by
  cases v <;> cases directive <;> rfl

@[simp] theorem walked_body : (v.body directive).walked = (v.walked || directive) := by
  cases v <;> cases directive <;> rfl

@[simp] theorem read_accessorBody : (v.accessorBody directive).read = (v.read || directive) := by
  cases v <;> cases directive <;> rfl

@[simp] theorem walked_accessorBody : (v.accessorBody directive).walked = v.walked := by
  cases v <;> cases directive <;> rfl

/-- The two differ about late code and about unseen code alone. -/
theorem read_eq_walked_iff : v.read = v.walked ↔ v ≠ .late ∧ v ≠ .unseen := by
  cases v <;> decide

end Verdict

/-! ## The verdicts on the children -/

section Parts

variable {α β : Type} (isStrict : α → Bool) (f : α → β)

/-- The parts of a function, beside its name. `isStrict` tells a body with a directive of its
own. -/
def Verdict.parts (v : Verdict) (parameters body : α) : List (Verdict × α) :=
  [(v.parameters (isStrict body), parameters), (v.body (isStrict body), body)]

def MemberValue.verdicts (v : Verdict) : MemberValue α → List (Verdict × α)
  | .getter body => [(v.accessorBody (isStrict body), body)]
  | .method _ _ parameters body => v.parts isStrict parameters body
  | .property initializer => v.each initializer.toList
  | .setter parameter body => [(v, parameter), (v.accessorBody (isStrict body), body)]

/-- The children of a node in code with the verdict `v`, each with its own. -/
def Shape.verdicts (v : Verdict) : Shape α → List (Verdict × α)
  | .functionDeclaration _ _ name parameters body | .functionExpression _ _ name parameters body =>
    v.each name.toList ++ v.parts isStrict parameters body
  | .arrowFunction _ parameters body => v.parts isStrict parameters body
  | .classDeclaration name parent members | .classExpression name parent members =>
    Verdict.strict.each name.toList ++ Verdict.strict.each parent.toList ++
      members.flatMap fun m =>
        Verdict.strict.each m.key.children ++ m.value.verdicts isStrict .strict
  | .objectMember (.valued key value) => v.each key.children ++ value.verdicts isStrict v
  | shape => v.each shape.children

variable {f}

@[simp] theorem Verdict.each_map (v : Verdict) (cs : List α) :
    v.each (cs.map f) = (v.each cs).map (Prod.map id f) := by
  simp [each, Function.comp_def]

@[simp] theorem Verdict.map_snd_each (v : Verdict) (cs : List α) :
    (v.each cs).map Prod.snd = cs := by
  simp [each, Function.comp_def]

theorem MemberValue.verdicts_map {isStrict : β → Bool} (v : Verdict) (value : MemberValue α) :
    (value.map f).verdicts isStrict v =
      (value.verdicts (isStrict ∘ f) v).map (Prod.map id f) := by
  cases value <;> simp [map, verdicts, Verdict.parts, toList_optionMap]

/-- A map keeps the verdicts on the children. -/
theorem Shape.verdicts_map {isStrict : β → Bool} (v : Verdict) (shape : Shape α) :
    (shape.map f).verdicts isStrict v =
      (shape.verdicts (isStrict ∘ f) v).map (Prod.map id f) := by
  cases shape
  case functionDeclaration | functionExpression | arrowFunction =>
    simp [map, verdicts, Verdict.parts, toList_optionMap]
  case classDeclaration | classExpression =>
    simp [map, verdicts, toList_optionMap, List.map_flatMap, List.flatMap_map,
      ClassMember.map, Key.children_map, MemberValue.verdicts_map]
  case objectMember content =>
    cases content <;>
      simp [map, verdicts, ObjectMember.map, ObjectMember.children, children,
        Key.children_map, MemberValue.verdicts_map, Verdict.each]
  all_goals exact (congrArg v.each (children_map f _)).trans (v.each_map _)

theorem MemberValue.snd_verdicts (v : Verdict) (value : MemberValue α) :
    (value.verdicts isStrict v).map Prod.snd = value.children := by
  cases value <;> simp [verdicts, Verdict.parts, children]

/-- There is a verdict on each child. -/
theorem Shape.snd_verdicts (v : Verdict) (shape : Shape α) :
    (shape.verdicts isStrict v).map Prod.snd = shape.children := by
  cases shape
  case functionDeclaration | functionExpression | arrowFunction =>
    simp [verdicts, Verdict.parts, children]
  case classDeclaration | classExpression =>
    simp only [verdicts, children, List.map_append, List.map_flatMap, Verdict.map_snd_each,
      MemberValue.snd_verdicts]
    rfl
  case objectMember content =>
    cases content <;>
      simp [verdicts, ObjectMember.children, children, MemberValue.snd_verdicts]
  all_goals exact v.map_snd_each _

end Parts

/-! ## What is said while code is read -/

theorem Verdict.read_each (v : Verdict) (ns : List Node) :
    (v.each ns).map (Prod.map read id) = Grammar.each v.read ns := by
  simp [each, Grammar.each, Function.comp_def]

theorem MemberValue.read_verdicts (v : Verdict) (value : MemberValue Node) :
    (value.verdicts isStrictBody v).map (Prod.map Verdict.read id) = value.readParts v.read := by
  cases value <;> simp [verdicts, readParts, Verdict.parts, bodyPart, Verdict.read_each]

/-- The parts of a node are read in frames that say what the verdicts on them do. -/
theorem Shape.read_verdicts (v : Verdict) (shape : Shape Node) :
    (shape.verdicts isStrictBody v).map (Prod.map Verdict.read id) = shape.readParts v.read := by
  cases shape
  case functionDeclaration | functionExpression | arrowFunction =>
    simp [verdicts, readParts, Verdict.parts, bodyPart, Verdict.read_each]
  case classDeclaration | classExpression =>
    simp [verdicts, readParts, List.map_flatMap, MemberValue.read_verdicts, Verdict.read_each,
      Verdict.read]
  case objectMember content =>
    cases content with
    | valued =>
      simp [verdicts, readParts, MemberValue.read_verdicts, Verdict.read_each]
    | shorthand | spread => exact v.read_each _
  all_goals exact v.read_each _

/-! ## Function declarations -/

/-- A function declaration in code with this verdict. -/
structure FunctionSite where
  node : Node
  verdict : Verdict

/-- The function declaration that a node is, if it is one. -/
def Node.functionSite? (n : Node) (v : Verdict) : Option FunctionSite :=
  if n.shape.isFunctionDeclaration then some ⟨n, v⟩ else none

namespace Node

/-- The function declarations of a tree in code with the verdict `v`. -/
def functionSites (n : Node) : Verdict → List FunctionSite :=
  n.fold fun n children v =>
    (n.functionSite? v).toList ++ (children.verdicts (fun c => isStrictBody c.1) v).flatMap
      fun (v, _, sites) => sites v

theorem functionSites_eq (n : Node) (v : Verdict) :
    n.functionSites v = (n.functionSite? v).toList ++
      (n.shape.verdicts isStrictBody v).flatMap fun (v, c) => c.functionSites v := by
  unfold functionSites
  rw [fold_eq, Shape.verdicts_map, List.flatMap_map]
  rfl

/-- The sites are the function declarations of the tree. -/
theorem map_node_functionSites (n : Node) (v : Verdict) :
    (n.functionSites v).map (·.node) = n.nodes.filter (·.shape.isFunctionDeclaration) := by
  induction n using Node.induction generalizing v with
  | h n ih =>
    have hown : (n.functionSite? v).toList.map (·.node) =
        [n].filter (·.shape.isFunctionDeclaration) := by
      unfold functionSite?
      cases h : n.shape.isFunctionDeclaration <;> simp [h]
    have hbelow : ((n.shape.verdicts isStrictBody v).flatMap
        fun (v, c) => c.functionSites v).map (·.node) =
        (n.shape.children.flatMap nodes).filter (·.shape.isFunctionDeclaration) := by
      rw [← n.shape.snd_verdicts isStrictBody v, List.flatMap_map, List.map_flatMap,
        List.filter_flatMap]
      refine List.flatMap_congr fun p hp => ih p.2 ?_ p.1
      rw [← n.shape.snd_verdicts isStrictBody v]
      exact List.mem_map_of_mem hp
    rw [functionSites_eq, List.map_append, hown, hbelow, nodes_eq, ← List.filter_append]
    rfl

/-- In code that is read, each function declaration is read in a frame that says what its verdict
does. -/
theorem ReadAs.functionSites {strict : Bool} {n : Node} (h : n.ReadAs strict) :
    ∀ v : Verdict, v.read = strict → ∀ s ∈ n.functionSites v,
      s.node.ReadAs s.verdict.read ∧ WasDeclared s.verdict.read s.node := by
  induction h with
  | @mk strict span shape checked parts declared ih =>
    rintro v rfl
    rw [functionSites_eq]
    refine List.forall_mem_append.2 ⟨?_, List.forall_mem_flatMap.2 fun p hp => ?_⟩
    · intro s hs
      simp only [functionSite?, Option.mem_toList, Option.ite_none_right_eq_some,
        Option.some.injEq] at hs
      obtain ⟨hfunction, rfl⟩ := hs
      exact ⟨.mk checked parts declared, declared hfunction⟩
    · have hpart : (p.1.read, p.2) ∈ shape.readParts v.read := by
        rw [← shape.read_verdicts v]
        exact List.mem_map_of_mem (f := Prod.map Verdict.read id) hp
      exact ih _ hpart p.1 rfl

end Node

/-- The function declarations of a program. -/
def Program.functionSites (p : Program) : List FunctionSite :=
  p.root.functionSites (.of p.strict)

end ScriptMin
