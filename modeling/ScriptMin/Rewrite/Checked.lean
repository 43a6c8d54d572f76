import ScriptMin.Layout.Checked
import ScriptMin.Rewrite.Passes

/-!
# Rewriting with checks

A rule first looks at a node to see whether it applies, and then takes the node apart. Rewriting
with checks does not rely on the second look to find what the first one found: where it does not,
rewriting stops with the assumption that was broken.
-/

namespace ScriptMin.Rewrite

/-- A rule that may find an assumption broken. -/
abbrev CheckedRule := Context → Node → Except InvariantError (Option Node)

/-- A rule that takes nothing for granted. -/
def Rule.unchecked (rule : Rule) : CheckedRule := fun context n => .ok (rule context n)

namespace Checked

/-- A rule on statements in a row. -/
def onStatements (rule : List Node → Except InvariantError (Option (List Node))) (n : Node) :
    Except InvariantError (Option Node) :=
  match statements? n with
  | none => .ok none
  | some body => (·.map (withStatements n)) <$> rule body

/-- Joins statements in a row, where some neighbours are found to be related. `join` adds a
statement to those before it, the last of them first. -/
def onNeighbours (related : Node → Node → Bool)
    (join : List Node → Node → Except InvariantError (List Node)) (body : List Node) :
    Except InvariantError (Option (List Node)) :=
  if anyNeighbours related body then (some ·.reverse) <$> body.foldlM join [] else .ok none

/-! ## Constants -/

/-- Compares the lengths of two nodes as they are printed. -/
def foldConstants : CheckedRule := fun _ n =>
  match constantValue? n with
  | none => .ok none
  | some value => do
    let value := n.withShape (value.shape n)
    let shorter ← value.printChecked .compact
    let longer ← n.printChecked .compact
    return if Source.byteLength shorter ≤ Source.byteLength longer then some value else none

/-! ## Declarations -/

/-- How a statement declares variables, if it does. -/
def variableKind? (n : Node) : Option VariableKind :=
  match n.shape with
  | .variableStatement ⟨_, .variableDeclaration kind _⟩ => some kind
  | _ => none

/-- Whether two statements declare variables in the same way. -/
def sameKind (a b : Node) : Bool :=
  (variableKind? a).isSome && variableKind? a == variableKind? b

/-- Adds the variables of a statement to those of the statement before it. -/
def addVariables (a b : Node) : Except InvariantError Node :=
  match a.shape, b.shape with
  | .variableStatement ⟨span, first⟩, .variableStatement ⟨_, second⟩ =>
    match first, second with
    | .variableDeclaration kind declarators, .variableDeclaration _ others =>
      .ok (a.withShape
        (.variableStatement ⟨span, .variableDeclaration kind (declarators ++ others)⟩))
    | _, _ => .error ⟨.variableDeclarations, none⟩
  | _, _ => .error ⟨.variableStatements, none⟩

/-- Adds a statement to those before it, perhaps to the variables of the last one. -/
def joinVariablesTo (before : List Node) (n : Node) : Except InvariantError (List Node) :=
  match before.head?.filter (sameKind · n) with
  | none => .ok (n :: before)
  | some previous => (· :: before.tail) <$> addVariables previous n

def joinVariables : CheckedRule := fun _ => onStatements (onNeighbours sameKind joinVariablesTo)

/-! ## Expressions in a row -/

/-- Whether a statement has a place for an expression before its own first one. -/
def absorbs (n : Node) : Bool :=
  match n.shape with
  | .expressionStatement _ | .returnStatement (some _) | .throwStatement _ | .ifStatement ..
  | .switchStatement .. => true
  | .forLoop (.stepped init _ _) _ => !(init matches .declaration _)
  | _ => false

def isExpressionStatement (n : Node) : Bool := n.shape matches .expressionStatement _

/-- A statement that evaluates an expression before its own first one. -/
def prepend (expression statement : Node) : Except InvariantError Node :=
  let first := sequenceOf expression
  match statement.shape with
  | .expressionStatement value => .ok (statement.withShape (.expressionStatement (first value)))
  | .returnStatement (some value) =>
    .ok (statement.withShape (.returnStatement (some (first value))))
  | .throwStatement value => .ok (statement.withShape (.throwStatement (first value)))
  | .ifStatement test consequent alternate =>
    .ok (statement.withShape (.ifStatement (first test) consequent alternate))
  | .switchStatement subject cases =>
    .ok (statement.withShape (.switchStatement (first subject) cases))
  | .forLoop (.stepped init condition post) body =>
    match init with
    | .none =>
      .ok (statement.withShape (.forLoop (.stepped (.expression expression) condition post) body))
    | .expression value =>
      .ok (statement.withShape
        (.forLoop (.stepped (.expression (first value)) condition post) body))
    | .declaration _ => .error ⟨.freeLoopHead, statement.span⟩
  | _ => .error ⟨.absorbingStatement, statement.span⟩

/-- Whether an expression stands before a statement that has a place for it. -/
def canMove (a b : Node) : Bool := isExpressionStatement a && absorbs b

/-- Moves the expression that a statement is into the statement after it. -/
def moveExpression (a b : Node) : Except InvariantError Node :=
  match a.shape with
  | .expressionStatement expression => prepend expression b
  | _ => .error ⟨.previousExpression, b.span⟩

/-- Adds a statement to those before it, perhaps with the expression that the last one is. -/
def joinExpressionTo (before : List Node) (n : Node) : Except InvariantError (List Node) :=
  if before.head?.any (canMove · n) then
    match before with
    | [] => .error ⟨.previousStatement, n.span⟩
    | previous :: rest => (· :: rest) <$> moveExpression previous n
  else .ok (n :: before)

def joinExpressions : CheckedRule := fun _ => onStatements (onNeighbours canMove joinExpressionTo)

/-! ## Branches -/

/-- The expression that an `if` is, if its branches are expressions. -/
def ifExpression (n test consequent : Node) :
    Option Node → Except InvariantError (Option Node)
  | none =>
    if doesNothing consequent then .ok (some test)
    else .ok ((singleExpression? consequent).map (guard test · true))
  | some alternate =>
    if doesNothing consequent then .ok ((singleExpression? alternate).map (guard test · false))
    else if (singleExpression? consequent).isNone || (singleExpression? alternate).isNone then
      .ok none
    else
      match singleExpression? consequent, singleExpression? alternate with
      | some first, some second => .ok (some (choice test first second))
      | _, _ => .error ⟨.expressionBranches, n.span⟩

def ifToExpression : CheckedRule := fun _ n =>
  match n.shape with
  | .ifStatement test consequent alternate =>
    if alternate.any doesNothing then .ok (some (n.withShape (.ifStatement test consequent none)))
    else (·.map fun value => n.withShape (.expressionStatement value)) <$>
      ifExpression n test consequent alternate
  | _ => .ok none

/-- Whether an `if` that returns stands before a `return`. -/
def returnsEither (a b : Node) : Bool :=
  (match a.shape with
    | .ifStatement _ consequent none => (singleReturn? consequent).isSome
    | _ => false) &&
    b.shape matches .returnStatement (some _)

/-- The `return` that an `if` and the `return` after it come to. -/
def joinReturns (a b : Node) : Except InvariantError Node :=
  match a.shape with
  | .ifStatement test consequent _ =>
    match b.shape with
    | .returnStatement (some alternate) =>
      match singleReturn? consequent with
      | some value => .ok (returnOf (choice test value alternate))
      | none => .error ⟨.returnInBranch, b.span⟩
    | _ => .error ⟨.returnAfterIf, b.span⟩
  | _ => .error ⟨.ifBeforeReturn, b.span⟩

/-- Joins the first two statements in a row that come to one `return`. -/
def joinReturn : List Node → Except InvariantError (Option (List Node))
  | a :: b :: rest =>
    if returnsEither a b then (fun joined => some (joined :: rest)) <$> joinReturns a b
    else (·.map (a :: ·)) <$> joinReturn (b :: rest)
  | _ => .ok none

def returnChoice : CheckedRule := fun _ n =>
  match n.shape with
  | .ifStatement test consequent (some alternate) =>
    if (singleReturn? consequent).isNone || (singleReturn? alternate).isNone then .ok none
    else
      match singleReturn? consequent, singleReturn? alternate with
      | some first, some second => .ok (some (returnOf (choice test first second)))
      | _, _ => .error ⟨.returningBranches, n.span⟩
  | _ => onStatements joinReturn n

/-! ## Passes -/

/-- Applies a rule if it applies. -/
def apply (context : Context) (p : Progress) (rule : CheckedRule) :
    Except InvariantError Progress := do
  match ← rule context p.node with
  | some n => return ⟨n, p.count + 1⟩
  | none => return p

/-- Applies all rules in turn until none applies, at most `rounds` times. -/
def settle (rules : List CheckedRule) (context : Context) :
    Nat → Progress → Except InvariantError Progress
  | 0, p => .ok p
  | rounds + 1, p => do
    let p' ← rules.foldlM (apply context) p
    if p'.count = p.count then return p' else settle rules context rounds p'

/-- The first error among children that have been rewritten. -/
def firstError? (cs : List (Node × Except InvariantError Progress)) : Option InvariantError :=
  cs.findSome? fun c =>
    match c.2 with
    | .error e => some e
    | .ok _ => none

/-- What a child has come to. One that stopped with an error stays as it is. -/
def progress (c : Node × Except InvariantError Progress) : Progress :=
  match c.2 with
  | .error _ => ⟨c.1, 0⟩
  | .ok p => p

/-- A node rewritten after its children. -/
def passNode (rules : List CheckedRule) (context : Context) (n : Node)
    (s : Shape (Node × Except InvariantError Progress)) : Except InvariantError Progress :=
  match firstError? s.children with
  | some e => .error e
  | none =>
    settle rules context roundLimit
      ⟨n.withShape (s.map fun c => (progress c).node),
        (s.children.map fun c => (progress c).count).foldl (· + ·) 0⟩

/-- A tree rewritten from the leaves up, to the first error. -/
def pass (rules : List CheckedRule) (context : Context) (root : Node) :
    Except InvariantError Progress :=
  root.fold (passNode rules context)

/-- Passes over a tree until one changes nothing, at most `limit` of them. -/
def passes (rules : List CheckedRule) : Nat → Node → Except InvariantError Node
  | 0, root => .ok root
  | limit + 1, root => do
    let rewritten ← pass rules (Context.ofRoot root) root
    if rewritten.count = 0 then return rewritten.node else passes rules limit rewritten.node

end Checked

end Rewrite

/-- The rules that are enabled, with their checks, in the order in which they are tried. -/
def RewriteOptions.checkedRules (o : RewriteOptions) : List Rewrite.CheckedRule :=
  let table : List (Bool × Rewrite.CheckedRule) :=
    [(o.dropDebugger, Rewrite.dropDebugger.unchecked),
     (o.deadCode, Rewrite.dropUnreached.unchecked),
     (o.deadCode, Rewrite.dropConstantBranch.unchecked),
     (o.yieldUndefined, Rewrite.shortenYield.unchecked),
     (o.undefinedToVoid, Rewrite.shortenUndefined.unchecked),
     (o.evaluate, Rewrite.Checked.foldConstants),
     (o.sideEffects, Rewrite.dropPure.unchecked),
     (o.properties, Rewrite.shortenAccess.unchecked),
     (o.properties, Rewrite.shortenKey.unchecked),
     (o.blocks, Rewrite.flattenBlocks.unchecked),
     (o.blocks, Rewrite.unwrapBlocks.unchecked),
     (o.joinVars, Rewrite.Checked.joinVariables),
     (o.loops, Rewrite.loopForever.unchecked),
     (o.ifReturn, Rewrite.Checked.returnChoice),
     (o.conditionals, Rewrite.Checked.ifToExpression),
     (o.sequences, Rewrite.Checked.joinExpressions)]
  (table.filter (·.1)).map (·.2)

/-- A program rewritten by the enabled rules, to the first error. -/
def Program.rewriteChecked (o : RewriteOptions) (p : Program) : Except InvariantError Program :=
  (fun root => { p with root }) <$> Rewrite.Checked.passes o.checkedRules o.passLimit p.root

end ScriptMin
