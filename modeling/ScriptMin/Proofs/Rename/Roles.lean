import ScriptMin.Proofs.Rename.Reopen
import ScriptMin.Proofs.Tree.Map

/-!
# Shapes that open no scope

Most shapes do with names what their children do, in the roles that these have, and nothing else.
`openShape_of_flat` says so of all of them at once.
-/

namespace ScriptMin

open Rename

variable {α β : Type}

/-- Children beside the roles that they have in a shape, which has a role itself. -/
def Shape.inRoles (role : Rename.Role) (s : Shape α) : Shape (Rename.Role × α) :=
  match s with
  | .arrayPattern elements rest =>
    .arrayPattern (elements.map (·.map fun d => ⟨(role, d.target), d.fallback.map (.value, ·)⟩))
      (rest.map (role, ·))
  | .objectPattern properties rest =>
    .objectPattern (properties.map (role, ·)) (rest.map (role, ·))
  | .parameter isRest target fallback =>
    .parameter isRest (.declaration .lexical, target) (fallback.map (.value, ·))
  | .variableDeclaration kind declarators =>
    .variableDeclaration kind (declarators.map fun d =>
      ⟨(.declaration (variableDeclares kind), d.pattern), d.initializer.map (.value, ·)⟩)
  | .catchClause pattern body =>
    .catchClause (pattern.map (.declaration .lexical, ·)) (.body, body)
  | .importDeclaration defaultName names source =>
    .importDeclaration (defaultName.map (.declaration .lexical, ·))
      (names.map (·.map (.declaration .lexical, ·))) source
  | s => s.map (.value, ·)

/-- Whether a shape opens no scope and does nothing with names but by its children. -/
def Shape.isFlat (s : Shape α) : Bool :=
  match s with
  | .bindingName _ | .definitionName _ | .identifier _ | .patternProperty ..
  | .functionDeclaration .. | .functionExpression .. | .arrowFunction .. | .classDeclaration ..
  | .classExpression .. | .objectMember _ | .call .. | .withStatement .. | .block _ | .forLoop ..
  | .switchStatement .. | .catchClause .. | .exportList .. | .exportDeclaration .. => false
  | _ => true

theorem Shape.map_inRoles (role : Rename.Role) (s : Shape α) : (s.inRoles role).map (·.2) = s := by
  have hvalues : ∀ s : Shape α, (s.map (Rename.Role.value, ·)).map (·.2) = s :=
    fun s => (Shape.map_map _ _ s).trans s.map_id
  cases s <;> simp only [inRoles]
  case importDeclaration defaultName names source =>
    rcases names with - | ⟨- | asName⟩ | names <;>
      simp [map, ModuleNames.map, ModuleName.map, Function.comp_def]
  all_goals first
    | exact hvalues _
    | simp [map, Defaulted.map, Declarator.map, Function.comp_def]

theorem Shape.inRoles_map (role : Rename.Role) (f : α → β) (s : Shape α) :
    (s.map f).inRoles role = (s.inRoles role).map (Prod.map id f) := by
  have hvalues : ∀ s : Shape α, (s.map f).map (Rename.Role.value, ·) =
      (s.map (Rename.Role.value, ·)).map (Prod.map id f) := by
    intro s
    rw [Shape.map_map, Shape.map_map]
    rfl
  cases s <;> simp only [inRoles]
  case importDeclaration defaultName names source =>
    rcases names with - | ⟨- | asName⟩ | names <;>
      simp [map, ModuleNames.map, ModuleName.map, Function.comp_def]
  all_goals first
    | exact hvalues _
    | simp [map, Defaulted.map, Declarator.map, Function.comp_def]

theorem Shape.mem_children_of_mem_inRoles {role : Rename.Role} {s : Shape α}
    {p : Rename.Role × α} (hp : p ∈ (s.inRoles role).children) : p.2 ∈ s.children := by
  rw [← s.map_inRoles role, Shape.children_map]
  exact List.mem_map_of_mem hp

namespace Rename

open Scoped

/-- A flat shape has its children in their roles and nothing else. -/
theorem openShape_of_flat {s : Shape Node} (h : s.isFlat) (span : Source.Span) (role : Role)
    (strict : Bool) :
    openShape span role strict (s.map opened) =
      shape ((s.inRoles role).map fun p => openNode p.2 p.1 strict) := by
  have hflat : openShape span role strict (s.map opened) =
      shape (((s.map opened).inRoles role).map fun p => p.2.2 p.1 strict) := by
    have hplain : ∀ s : Shape Child, plainShape strict s =
        shape ((s.map (Role.value, ·)).map fun p => p.2.2 p.1 strict) := by
      intro s
      rw [plainShape, Shape.map_map]
      rfl
    cases s
    case arrayPattern | objectPattern | parameter | variableDeclaration | importDeclaration =>
      simp [openShape, Shape.map, Shape.inRoles, inRole, Defaulted.map, Declarator.map,
        Function.comp_def, ModuleNames.map_map]
    all_goals first
      | cases h; done
      | exact hplain _
  rw [hflat, Shape.inRoles_map, Shape.map_map]
  rfl

/-- A catch clause has its children in their roles in a scope of its own. -/
theorem openShape_catchClause {pattern : Option Node} {body : Node} (span : Source.Span)
    (role : Role) (strict : Bool) :
    openShape span role strict ((Shape.catchClause pattern body).map opened) =
      within .block (shape (((Shape.catchClause pattern body).inRoles role).map
        fun p => openNode p.2 p.1 strict)) := by
  simp [openShape, Shape.map, Shape.inRoles, inRole, Function.comp_def]

end Rename

end ScriptMin
