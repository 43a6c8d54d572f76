import ScriptMin.Source.Span
import ScriptMin.Operator

/-!
# The shapes of syntax

`Shape α` is one node of a syntax tree with an `α` in the place of each child. The tree itself is
`Node`, whose children are nodes again; a walk puts what it computed for the children there.
Patterns, expressions and statements are shapes of one type, since a walk treats them alike.
-/

namespace ScriptMin

/-- An element of an array literal. A hole has no value. -/
inductive ArrayElement (α : Type) where
  | item (value : α)
  | spread (value : α)
  | hole

/-- A target in a pattern, with the value it falls back to. -/
structure Defaulted (α : Type) where
  target : α
  fallback : Option α

/-- The key of a member: as written (a name, a private name, a string with its quotes or a number),
or computed. -/
inductive Key (α : Type) where
  | direct (text : String)
  | computed (expression : α)

/-- What a member of a class or an object holds under its key. -/
inductive MemberValue (α : Type) where
  | getter (body : α)
  | method (isAsync generator : Bool) (parameters body : α)
  | property (initializer : Option α)
  | setter (parameter body : α)

structure ClassMember (α : Type) where
  key : Key α
  isStatic : Bool
  value : MemberValue α

/-- A member of an object literal. The shorthand `{a}` reads the variable of that name. -/
inductive ObjectMember (α : Type) where
  | valued (key : Key α) (value : MemberValue α)
  | shorthand (name : String)
  | spread (value : α)

/-- A name in the braces of an import or export. `target` is the name that the other module exports,
or the local name to be exported; `asName` is the local binding, or the exported name. -/
structure ModuleName (α : Type) where
  target : String
  asName : α

/-- What an import or export names: everything, with an optional name for it, or a list. -/
inductive ModuleNames (α : Type) where
  | all (asName : Option α)
  | listed (names : List (ModuleName α))

structure Declarator (α : Type) where
  pattern : α
  initializer : Option α

/-- What stands before the first semicolon in the head of a `for` loop. -/
inductive ForInit (α : Type) where
  | none
  | expression (value : α)
  | declaration (value : α)

/-- What a `for` loop over the elements or keys of a value assigns to. -/
inductive ForTarget (α : Type) where
  | declaration (value : α)
  | pattern (value : α)

/-- The head of a `for` loop. `isOf` tells a loop over elements from one over keys. -/
inductive ForHead (α : Type) where
  | stepped (init : ForInit α) (condition post : Option α)
  | each (isOf awaits : Bool) (target : ForTarget α) (subject : α)

/-- A piece of a template: characters as written, or a substitution. -/
inductive TemplatePart (α : Type) where
  | text (raw : String)
  | substitution (expression : α)

/-- How variables are declared: by `var`, by `let` or by `const`. -/
inductive VariableKind where
  | hoisted
  | block
  | constant
deriving DecidableEq, Repr

/-- One node of a syntax tree over children of type `α`.

The flag `parenthesised` of a call or an access is kept because parentheses end an optional chain.
A `stringLiteral` has `raw` where its value is not all characters, and is then written as it was.
`undefinedLiteral` is never read, only made by rewriting; it is written `void 0`. -/
inductive Shape (α : Type) where
  | bindingName (name : String)
  | arrayPattern (elements : List (Option (Defaulted α))) (rest : Option α)
  | objectPattern (properties : List α) (rest : Option α)
  | patternProperty (key : Key α) (target : α) (fallback : Option α) (shorthand : Bool)
  | definitionName (name : String)
  | signature (parameters : List α)
  | parameter (isRest : Bool) (pattern : α) (fallback : Option α)
  | functionDeclaration (isAsync generator : Bool) (name : Option α) (parameters body : α)
  | functionExpression (isAsync generator : Bool) (name : Option α) (parameters body : α)
  | arrowFunction (isAsync : Bool) (parameters body : α)
  | classDeclaration (name parent : Option α) (members : List (ClassMember α))
  | classExpression (name parent : Option α) (members : List (ClassMember α))
  | variableDeclaration (kind : VariableKind) (declarators : List (Declarator α))
  | identifier (name : String)
  | binary (operator : BinaryOperator) (left right : α)
  | assignment (operator : AssignmentOperator) (target value : α)
  | unary (operator : UnaryOperator) (operand : α)
  | postfixed (operator : PostfixOperator) (operand : α)
  | conditional (test consequent alternate : α)
  | sequence (elements : List α)
  | call (isOptional parenthesised : Bool) (callee : α) (arguments : List α)
  | index (isOptional parenthesised : Bool) (object subscript : α)
  | member (isOptional parenthesised : Bool) (object : α) (name : String)
  | construct (callee : α) (arguments : List α)
  | argument (isSpread : Bool) (value : α)
  | importCall (specifier : α)
  | importMeta
  | newTarget
  | superExpression
  | thisExpression
  | yieldExpression (delegates : Bool) (operand : Option α)
  | arrayLiteral (elements : List (ArrayElement α))
  | bigIntLiteral (digits : String)
  | booleanLiteral (value : Bool)
  | nullLiteral
  | numberLiteral (value : Float)
  | objectLiteral (members : List α)
  | objectMember (content : ObjectMember α)
  | regexLiteral (text : String)
  | stringLiteral (value : String) (raw : Option String)
  | templateLiteral (parts : List (TemplatePart α))
  | taggedTemplate (tag : α) (parts : List (TemplatePart α))
  | undefinedLiteral
  | block (body : List α)
  | breakStatement (label : Option String)
  | continueStatement (label : Option String)
  | debuggerStatement
  | directive (raw : String)
  | doWhileLoop (body condition : α)
  | emptyStatement
  | exportDeclaration (declaration : α) (isDefault : Bool)
  | exportDefault (expression : α)
  | exportList (names : ModuleNames α) (source : Option String)
  | expressionStatement (expression : α)
  | forLoop (head : ForHead α) (body : α)
  | ifStatement (test consequent : α) (alternate : Option α)
  | importDeclaration (defaultName : Option α) (names : Option (ModuleNames α)) (source : String)
  | labelledStatement (label : String) (statement : α)
  | returnStatement (value : Option α)
  | switchStatement (subject : α) (cases : List α)
  | switchCase (test : Option α) (body : List α)
  | throwStatement (value : α)
  | tryStatement (body : α) (handler finalizer : Option α)
  | catchClause (pattern : Option α) (body : α)
  | variableStatement (declaration : α)
  | whileLoop (condition body : α)
  | withStatement (object body : α)
  | program (body : List α)

end ScriptMin
