import ScriptMin.Source.Span

/-!
# Assumptions about trees

Rewriting and printing take some things about a tree for granted, because every tree that is read
has them. Where a tree lacks one there is no result but an `InvariantError`, which would be a defect
of the program and not of its input.
-/

namespace ScriptMin

/-- What is taken for granted about a tree. -/
inductive Assumption where
  /-- Printing: a name in the braces of an import or export stands beside a plain name. -/
  | plainAlias
  /-- Printing: what declares variables is a declaration of variables. -/
  | variables
  /-- Two statements that are joined into one declare variables. -/
  | variableStatements
  /-- Both of them hold a declaration of variables. -/
  | variableDeclarations
  /-- A loop that an expression is moved into declares nothing. -/
  | freeLoopHead
  /-- A statement that an expression is moved into evaluates one itself. -/
  | absorbingStatement
  /-- A statement that follows an expression has a statement before it. -/
  | previousStatement
  /-- The statement that an expression is moved out of is an expression. -/
  | previousExpression
  /-- The branches of an `if` are expressions, as they were found to be. -/
  | expressionBranches
  /-- The branches of an `if` return something, as they were found to do. -/
  | returningBranches
  /-- An `if` stands before the `return` that it is joined to. -/
  | ifBeforeReturn
  /-- The statement that an `if` is joined to is a `return`. -/
  | returnAfterIf
  /-- The branch of an `if` that is joined to a `return` is one itself. -/
  | returnInBranch
deriving DecidableEq, Repr

def Assumption.message : Assumption → String
  | .plainAlias => "export alias is not an identifier"
  | .variables => "expected a variable declaration"
  | .variableStatements => "expected variable statements"
  | .variableDeclarations => "expected variable declarations"
  | .freeLoopHead => "cannot prepend to a declaration"
  | .absorbingStatement => "statement cannot absorb an expression"
  | .previousStatement => "missing previous statement"
  | .previousExpression => "previous statement is not an expression"
  | .expressionBranches => "if branches changed shape"
  | .returningBranches => "return branches changed shape"
  | .ifBeforeReturn => "expected if statement before return"
  | .returnAfterIf => "expected return statement"
  | .returnInBranch => "expected return in consequent"

/-- An assumption that a tree breaks, and where if a single node does. -/
structure InvariantError where
  broken : Assumption
  span : Option Source.Span
deriving DecidableEq, Repr

end ScriptMin
