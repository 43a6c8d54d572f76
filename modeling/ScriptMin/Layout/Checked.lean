import ScriptMin.Assumption
import ScriptMin.Layout.OfNode

/-!
# Printing with checks

The layout of a tree is found whatever stands in its places. Printing with checks asks in addition
that a name in the braces of an import or export stands beside a plain name, and that what declares
variables is a declaration of variables. Operators need no check, since each of them has a spelling.
-/

namespace ScriptMin

namespace Layout

/-- A child beside the first assumption that it breaks. -/
abbrev Inspected := Node × Option InvariantError

/-- What a name in braces breaks. -/
def moduleNameFault? (n : ModuleName Inspected) : Option InvariantError :=
  match n.asName.1.shape with
  | .bindingName _ => n.asName.2
  | _ => some ⟨.plainAlias, n.asName.1.span⟩

/-- What a child breaks in a place for variables. -/
def variablesFault? (c : Inspected) : Option InvariantError :=
  match c.1.shape with
  | .variableDeclaration .. => c.2
  | _ => some ⟨.variables, c.1.span⟩

/-- What children in a row break. -/
def firstFault? (cs : List Inspected) : Option InvariantError := cs.findSome? (·.2)

/-- What a node breaks, first of all in the order of printing. The key of a shorthand is not
printed. -/
def shapeFault? : Shape Inspected → Option InvariantError
  | .exportList (.listed names) _ => names.findSome? moduleNameFault?
  | .importDeclaration defaultName (some (.listed names)) _ =>
    (firstFault? defaultName.toList).or (names.findSome? moduleNameFault?)
  | .variableStatement declaration => variablesFault? declaration
  | .forLoop (.stepped (.declaration declaration) condition post) body =>
    (variablesFault? declaration).or (firstFault? (condition.toList ++ post.toList ++ [body]))
  | .forLoop (.each _ _ (.declaration declaration) subject) body =>
    (variablesFault? declaration).or (firstFault? [subject, body])
  | .patternProperty _ target fallback true => firstFault? (target :: fallback.toList)
  | s => firstFault? s.children

end Layout

/-- The first assumption of printing that a tree breaks. -/
def Node.printFault? (n : Node) : Option InvariantError :=
  n.fold fun _ s => Layout.shapeFault? s

/-- The text of a node in a style, if it breaks no assumption. -/
def Node.printChecked (style : Style) (n : Node) : Except InvariantError (List Char) :=
  match n.printFault? with
  | some e => .error e
  | none => .ok (n.print style)

/-- The text of a program in a style, if its tree breaks no assumption. -/
def Program.printChecked (style : Style) (p : Program) : Except InvariantError (List Char) :=
  p.root.printChecked style

end ScriptMin
