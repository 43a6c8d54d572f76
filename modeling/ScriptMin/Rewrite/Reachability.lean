import ScriptMin.Rewrite.Basic
import ScriptMin.Rewrite.Effects
import ScriptMin.Tree.Binding

/-!
# Code that never runs

What stands after a jump, in the branch that a constant test does not take, or for a debugger is
left out. Declarations in it that are seen outside are kept, without their values.
-/

namespace ScriptMin.Rewrite

/-- A `debugger` statement becomes an empty one. -/
def dropDebugger : Rule := fun _ n =>
  match n.shape with
  | .debuggerStatement => some (n.withShape .emptyStatement)
  | _ => none

def isJump (n : Node) : Bool :=
  n.shape matches .returnStatement _ | .throwStatement _ | .breakStatement _ | .continueStatement _

/-- Whether a declarator only declares a name. -/
def declaresOnly (d : Declarator Node) : Bool :=
  d.initializer.isNone && d.pattern.shape matches .bindingName _

/-- Whether a statement counts even where it is never reached: it declares functions, names of the
block, or variables without a value. -/
def countsUnreached (n : Node) : Bool :=
  match n.shape with
  | .functionDeclaration .. | .classDeclaration .. => true
  | .variableStatement declaration =>
    match declaration.shape with
    | .variableDeclaration .hoisted declarators => declarators.all declaresOnly
    | .variableDeclaration .. => true
    | _ => false
  | _ => false

/-- A `var` that declares names without a value, in the place of `n`. -/
def bareVariables (n : Node) (names : List String) : Node :=
  let declarators := names.map fun name => ⟨n.withShape (.bindingName name), none⟩
  n.withShape (.variableStatement (n.withShape (.variableDeclaration .hoisted declarators)))

/-- The statements that are left of those after a jump. -/
def keptAfter (jump : Node) (unreached : List Node) : List Node :=
  let names := ((unreached.filter (!countsUnreached ·)).flatMap Node.hoistedNames).eraseDups
  (if names.isEmpty then [] else [bareVariables jump names]) ++ unreached.filter countsUnreached

/-- Leaves out the statements after the first jump in a row. -/
def reached? : List Node → Option (List Node)
  | [] => none
  | n :: rest =>
    if isJump n then
      if rest.all countsUnreached then none else some (n :: keptAfter n rest)
    else (reached? rest).map (n :: ·)

/-- `return; a()` is `return`. -/
def dropUnreached : Rule := fun _ => onStatements reached?

/-- `if (true) a; else b` is `a`, unless a declaration in the other branch is seen outside. -/
def dropConstantBranch : Rule := fun _ n =>
  match n.shape with
  | .ifStatement test consequent alternate => do
    if ← truth? test then
      if alternate.any Node.hoists then none else some consequent
    else if consequent.hoists then none
    else some (alternate.getD (n.withShape .emptyStatement))
  | .conditional test consequent alternate => do
    if ← truth? test then some consequent else some alternate
  | _ => none

end ScriptMin.Rewrite
