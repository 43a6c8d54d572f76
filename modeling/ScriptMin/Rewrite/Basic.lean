import ScriptMin.Tree.Node

/-!
# Rewrite rules

A rule looks at one node, whose children are already rewritten, and gives another node in its place
or nothing. `Context` holds what rules may ask about the program around the node.
-/

namespace ScriptMin.Rewrite

/-- Facts about a whole program. -/
structure Context where
  /-- Something binds the name `undefined`, or could bind it when the program runs. -/
  bindsUndefined : Bool
deriving DecidableEq, Repr

/-- A rule gives the replacement of a node, or nothing where it does not apply. -/
abbrev Rule := Context → Node → Option Node

/-- Whether a node binds the name `undefined` or could bind it: in a `with` or by `eval`. -/
def mayBindUndefined (n : Node) : Bool :=
  match n.shape with
  | .bindingName name | .definitionName name => name == "undefined"
  | .withStatement .. => true
  | .call _ _ ⟨_, .identifier name⟩ _ => name == "eval"
  | _ => false

/-- The facts about the program with this root. -/
def Context.ofRoot (root : Node) : Context :=
  ⟨root.any mayBindUndefined⟩

/-- The statements in a row that a node holds: in a block, a program or a case. -/
def statements? (n : Node) : Option (List Node) :=
  match n.shape with
  | .block body | .program body | .switchCase _ body => some body
  | _ => none

/-- The node with other statements in a row. -/
def withStatements (n : Node) (body : List Node) : Node :=
  match n.shape with
  | .block _ => n.withShape (.block body)
  | .program _ => n.withShape (.program body)
  | .switchCase test _ => n.withShape (.switchCase test body)
  | _ => n

/-- A rule on statements in a row. -/
def onStatements (rule : List Node → Option (List Node)) (n : Node) : Option Node :=
  (statements? n).bind fun body => (rule body).map (withStatements n)

/-- Whether two neighbours in a list are related. -/
def anyNeighbours {α : Type} (related : α → α → Bool) (xs : List α) : Bool :=
  (xs.zip xs.tail).any fun (a, b) => related a b

end ScriptMin.Rewrite
