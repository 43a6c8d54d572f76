import ScriptMin.Tree.Node

/-!
# Names in patterns and declarations

The names that a pattern binds, and the names that `var` declares somewhere in a piece of code. A
`var` belongs to the function around it, so functions and classes inside the code are not looked
into; methods of object literals are.
-/

namespace ScriptMin.Node

open Source

/-- The names that a pattern binds, each with its place, from left to right. -/
def boundNames (pattern : Node) : List (String × Span) :=
  pattern.fold fun n s =>
    match s with
    | .bindingName name => [(name, n.span)]
    | .arrayPattern elements rest =>
      elements.flatMap (fun e => e.toList.flatMap fun d => d.target.2) ++
        rest.toList.flatMap (·.2)
    | .objectPattern properties rest =>
      properties.flatMap (·.2) ++ rest.toList.flatMap (·.2)
    | .patternProperty _ target _ _ => target.2
    | _ => []

/-- The names that `var` declares in some code. -/
def hoistedNames (code : Node) : List String :=
  code.fold fun _ s =>
    match s with
    | .functionDeclaration .. | .functionExpression .. | .arrowFunction .. | .classDeclaration ..
    | .classExpression .. => []
    | .variableDeclaration .hoisted declarators =>
      declarators.flatMap fun d => d.pattern.1.boundNames.map (·.1)
    | s => s.children.flatMap (·.2)

/-- Whether some code declares a `var` or a function that is seen outside it. -/
def hoists (code : Node) : Bool :=
  code.fold fun _ s =>
    match s with
    | .functionDeclaration .. | .variableDeclaration .hoisted _ => true
    | .functionExpression .. | .arrowFunction .. | .classDeclaration ..
    | .classExpression .. => false
    | s => s.children.any (·.2)

/-- Whether a statement declares a name for the block around it alone. -/
def isBlockDeclaration (n : Node) : Bool :=
  match n.shape with
  | .classDeclaration .. => true
  | .variableStatement declaration =>
    match declaration.shape with
    | .variableDeclaration kind _ => kind != .hoisted
    | _ => false
  | _ => false

end ScriptMin.Node
