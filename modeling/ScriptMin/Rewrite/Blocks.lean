import ScriptMin.Rewrite.Basic
import ScriptMin.Rewrite.Effects
import ScriptMin.Tree.Binding

/-!
# Blocks, declarations and loops

Braces that hold no declaration of their own are left out, neighbouring declarations of one kind are
joined, and a loop without an end needs no condition.
-/

namespace ScriptMin.Rewrite

/-- Whether statements declare a name for the block that they make. -/
def declaresInBlock (body : List Node) : Bool :=
  body.any fun n => n.isBlockDeclaration || n.shape matches .functionDeclaration ..

/-- What a statement comes to among others, if its braces can go: a block its statements, and an
empty statement nothing. -/
def flattened? (n : Node) : Option (List Node) :=
  match n.shape with
  | .emptyStatement => some []
  | .block body => if declaresInBlock body then none else some body
  | _ => none

/-- Blocks without declarations are spliced into the statements around them. -/
def flattenBlocks : Rule := fun _ =>
  onStatements fun body =>
    if body.any fun n => (flattened? n).isSome then
      some (body.flatMap fun n => (flattened? n).getD [n])
    else none

/-- Whether an `else` after a statement would belong to an `if` inside it. -/
def endsInOpenIf : Node → Bool
  | ⟨_, .ifStatement _ _ none⟩ => true
  | ⟨_, .ifStatement _ _ (some alternate)⟩ => endsInOpenIf alternate
  | ⟨_, .whileLoop _ body⟩ => endsInOpenIf body
  | ⟨_, .forLoop _ body⟩ => endsInOpenIf body
  | ⟨_, .withStatement _ body⟩ => endsInOpenIf body
  | ⟨_, .labelledStatement _ statement⟩ => endsInOpenIf statement
  | _ => false

/-- The one statement of a block that can stand without its braces. -/
def unwrapped? (beforeElse : Bool) (n : Node) : Option Node :=
  match n.shape with
  | .block [statement] =>
    if declaresInBlock [statement] || (beforeElse && endsInOpenIf statement) then none
    else some statement
  | _ => none

/-- The shape of a statement that holds another one, with that one changed if it can be. -/
def bodyUnwrapped? (shape : Shape Node) : Option (Shape Node) :=
  match shape with
  | .whileLoop condition body => (unwrapped? false body).map (.whileLoop condition ·)
  | .doWhileLoop body condition => (unwrapped? false body).map (.doWhileLoop · condition)
  | .forLoop head body => (unwrapped? false body).map (.forLoop head ·)
  | .withStatement object body => (unwrapped? false body).map (.withStatement object ·)
  | .labelledStatement label body => (unwrapped? false body).map (.labelledStatement label ·)
  | .ifStatement test consequent alternate =>
    let first := unwrapped? alternate.isSome consequent
    let second := alternate.bind (unwrapped? false)
    if first.isSome || second.isSome then
      some (.ifStatement test (first.getD consequent) (second.or alternate))
    else none
  | _ => none

/-- `if (a) { b() }` is `if (a) b()`, and likewise for other statements that hold one. -/
def unwrapBlocks : Rule := fun _ n => (bodyUnwrapped? n.shape).map n.withShape

/-- The kind and the declarators of a statement that declares variables. -/
def variableDeclaration? (n : Node) : Option (VariableKind × List (Declarator Node)) :=
  match n.shape with
  | .variableStatement declaration =>
    match declaration.shape with
    | .variableDeclaration kind declarators => some (kind, declarators)
    | _ => none
  | _ => none

/-- Two declarations of one kind as one, in the place of the first. -/
def joinedVariables? (a b : Node) : Option Node :=
  match a.shape, variableDeclaration? a, variableDeclaration? b with
  | .variableStatement declaration, some (kind, first), some (kind', second) =>
    if kind = kind' then
      some (a.withShape (.variableStatement (declaration.withShape
        (.variableDeclaration kind (first ++ second)))))
    else none
  | _, _, _ => none

/-- Joins each statement to the one before it where that can be done. -/
def joinNeighbours (join? : Node → Node → Option Node) : List Node → List Node
  | [] => []
  | n :: rest => go n rest
where
  /-- Joins the statements after `before` to it or to one another. -/
  go (before : Node) : List Node → List Node
    | [] => [before]
    | n :: rest =>
      match join? before n with
      | some joined => go joined rest
      | none => before :: go n rest

/-- Neighbours are joined where they can be. -/
def onNeighbours (join? : Node → Node → Option Node) (body : List Node) : Option (List Node) :=
  if anyNeighbours (fun a b => (join? a b).isSome) body then some (joinNeighbours join? body)
  else none

/-- `var a = 1; var b = 2` is `var a = 1, b = 2`. -/
def joinVariables : Rule := fun _ => onStatements (onNeighbours joinedVariables?)

/-- `while (1)` and `for (; true;)` are `for (;;)`. -/
def loopForever : Rule := fun _ n =>
  match n.shape with
  | .whileLoop condition body =>
    if truth? condition == some true then
      some (n.withShape (.forLoop (.stepped .none none none) body))
    else none
  | .forLoop (.stepped init (some condition) post) body =>
    if truth? condition == some true then
      some (n.withShape (.forLoop (.stepped init none post) body))
    else none
  | _ => none

end ScriptMin.Rewrite
