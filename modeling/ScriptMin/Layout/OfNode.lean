import ScriptMin.Grammar.Program
import ScriptMin.Layout.Basic
import ScriptMin.Layout.Edge
import ScriptMin.Literal.Quoted
import ScriptMin.Number.Numeral

/-!
# The layout of a tree

Each node is laid out from the layouts of its children. A child is put in parentheses if it binds
looser than its place allows, or if they end an optional chain. Nothing else of the parentheses, the
space and the semicolons of the source is kept.
-/

namespace ScriptMin

open Number Layout

namespace Layout

/-! ## Children -/

/-- A child beside its layout, which depends on whether it stands in the head of a loop. -/
abbrev Child := Node × (Bool → Layout)

namespace Child

/-- A child in a place that asks for this precedence. -/
def under (c : Child) (minimum : Nat) : Layout :=
  if c.1.precedence < minimum || c.1.closesChain then parenthesised (c.2 false) else c.2 false

/-- A child in a place that takes anything. -/
def plain (c : Child) : Layout := c.under 0

/-- A child in a place that takes no comma. -/
def single (c : Child) : Layout := c.under assignmentPrecedence

/-- A child in parentheses. -/
def wrapped (c : Child) : Layout := parenthesised c.plain

/-- A statement in the place of a single one. -/
def body (c : Child) : Layout :=
  match c.1.shape with
  | .block _ => c.plain
  | _ => .space :: c.plain

end Child

open Child

/-- A child that may be missing. -/
def optional (layout : Child → Layout) : Option Child → Layout
  | some c => layout c
  | none => []

/-- A value after an equals sign, if there is one. -/
def fallback : Option Child → Layout :=
  optional fun c => operator ['='] ++ c.single

/-! ## Literals -/

/-- A number. NaN and the infinities are written as quotients. -/
def number (v : Float) : Layout :=
  if isNaN v then text "0/0"
  else if isInfinite v then text (if isNegative v then "-1/0" else "1/0")
  else when (isNegative v) (mark .hyphen) ++ [.token (numeral v)]

def string (value : String) : Layout := [.token (Literal.quoted value.toList)]

/-- The parts of a template. No blank may be put into its characters. -/
def template (parts : List (TemplatePart Child)) : Layout :=
  let inner := parts.flatMap fun
    | .text raw => [Item.glued raw.toList]
    | .substitution c => .glued ['$', '\x7b'] :: c.plain ++ [.glued ['\x7d']]
  .token ['\x60'] :: inner ++ [.glued ['\x60']]

/-- Whether the numeral of a number would take in a point after it. -/
def takesPoint (n : Node) : Bool :=
  match n.shape with
  | .numberLiteral v => isFinite v && !isNegative v && isPlainInteger (numeral v)
  | _ => false

def arrayElement : ArrayElement Child → Layout
  | .item c => c.single
  | .spread c => mark .ellipsis ++ c.single
  | .hole => []

def isHole : ArrayElement Child → Bool
  | .hole => true
  | _ => false

/-! ## Functions, members and classes -/

def function (isAsync generator : Bool) (name : Option Child) (parameters body : Child) : Layout :=
  when isAsync (word .asyncWord) ++ word .functionWord ++ when generator (mark .asterisk) ++
    optional plain name ++ parameters.wrapped ++ body.plain

/-- Whether the parameters of an arrow function are one plain name. -/
def isSingleName (parameters : Node) : Bool :=
  match parameters.shape with
  | .signature [⟨_, .parameter false ⟨_, .bindingName _⟩ none⟩] => true
  | _ => false

/-- The body of an arrow function, which is no block if it starts like one. -/
def arrowBody (body : Child) : Layout :=
  match body.1.shape with
  | .block _ => body.plain
  | _ => if body.1.startsLikeBlock then body.wrapped else body.single

def key : Key Child → Layout
  | .direct name => text name
  | .computed c => bracketed c.single

/-- A member with its key, up to its value if it is a property. -/
def memberHead (k : Key Child) : MemberValue Child → Layout
  | .getter body => word .getWord ++ key k ++ parenthesised [] ++ body.plain
  | .setter parameter body => word .setWord ++ key k ++ parameter.wrapped ++ body.plain
  | .method isAsync generator parameters body =>
    when isAsync (word .asyncWord) ++ when generator (mark .asterisk) ++ key k ++
      parameters.wrapped ++ body.plain
  | .property _ => key k

def isProperty : MemberValue Child → Bool
  | .property _ => true
  | _ => false

def objectMember : ObjectMember Child → Layout
  | .valued k value =>
    memberHead k value ++
      match value with
      | .property (some c) => mark .colon ++ .space :: c.single
      | _ => []
  | .shorthand name => text name
  | .spread c => mark .ellipsis ++ c.single

def classMember (m : ClassMember Child) : Layout :=
  when m.isStatic (word .staticWord) ++ memberHead m.key m.value ++
    match m.value with
    | .property initializer => fallback initializer
    | _ => []

/-- The members of a class. A property needs a semicolon before the member after it. -/
def classMembers (afterProperty : Bool) : List (ClassMember Child) → Layout
  | [] => when afterProperty [.semicolon .spacious]
  | m :: rest =>
    when afterProperty (mark .semicolon) ++ .newline :: classMember m ++
      classMembers (isProperty m.value) rest

def classLayout (name parent : Option Child) (members : List (ClassMember Child)) : Layout :=
  word .classWord ++ optional plain name ++
    optional (fun c => word .extendsWord ++ c.under memberPrecedence) parent ++ .space ::
    braced (indented (classMembers false members) ++ when (!members.isEmpty) [.newline])

/-! ## Statements -/

/-- Statements in a row, of which the empty ones are left out. `before` is how the statement before
them ends. In the compact style a semicolon stands only between two statements, or for an empty one
at the very end. -/
def statementsAfter (before : Option Node.Ending) : List Child → Layout
  | [] => when (before == some .nothing) [.semicolon .compact]
  | c :: rest =>
    if c.1.isEmptyStatement then statementsAfter before rest
    else
      when (before.any (· != .brace)) [.semicolon .compact] ++ .newline :: c.plain ++
        when (c.1.ending != .brace) [.semicolon .spacious] ++ statementsAfter (some c.1.ending) rest

def statements (body : List Child) : Layout := statementsAfter none body

def block (body : List Child) : Layout :=
  .space :: braced (when (body.any (!·.1.isEmptyStatement))
    (indented (statements body) ++ [.newline]))

/-- The semicolon that ends a statement before a word. -/
def closing (n : Node) : Layout := when (n.ending != .brace) (mark .semicolon)

def declarator (inHead : Bool) (d : Declarator Child) : Layout :=
  d.pattern.plain ++ optional
    (fun c => operator ['='] ++ if inHead && c.1.containsIn then c.wrapped else c.single)
    d.initializer

def variableWord : VariableKind → Word
  | .hoisted => .varWord
  | .block => .letWord
  | .constant => .constWord

/-- The first part of the head of a loop, where the operator `in` needs parentheses. -/
def forInit : ForInit Child → Layout
  | .none => []
  | .expression c => if c.1.containsIn then c.wrapped else c.plain
  | .declaration c => c.2 true

def forTarget : ForTarget Child → Layout
  | .declaration c => c.plain
  | .pattern c => c.under memberPrecedence

def forHead : ForHead Child → Layout
  | .stepped init condition post =>
    let part := optional fun c => .space :: c.plain
    forInit init ++ mark .semicolon ++ part condition ++ mark .semicolon ++ part post
  | .each true _ target subject => forTarget target ++ word .ofWord ++ subject.single
  | .each false _ target subject => forTarget target ++ word .inWord ++ subject.plain

/-- Whether the last statement of a case needs a semicolon before the next case. -/
def caseNeedsSemicolon (branch : Node) : Bool :=
  match branch.shape with
  | .switchCase _ body =>
    (body.reverse.find? (!·.isEmptyStatement)).any (·.ending == .open)
  | _ => false

/-- The cases of a `switch`, after a case that needs a semicolon or not. -/
def switchCases (needsSemicolon : Bool) : List Child → Layout
  | [] => []
  | c :: rest =>
    when needsSemicolon [.semicolon .compact] ++ .newline :: c.plain ++
      switchCases (caseNeedsSemicolon c.1) rest

/-! ## Modules -/

/-- Whether a name in braces stands for itself. -/
def isOwnAlias (n : ModuleName Child) : Bool :=
  match n.asName.1.shape with
  | .bindingName asName => n.target == asName
  | _ => false

def moduleName (n : ModuleName Child) : Layout :=
  when (!isOwnAlias n) (text n.target ++ word .asWord) ++ n.asName.plain

def moduleNames : ModuleNames Child → Layout
  | .all asName => mark .asterisk ++ optional (fun c => word .asWord ++ c.plain) asName
  | .listed names => braced (list (names.map moduleName))

/-! ## Nodes -/

/-- An operator between two operands. The left one of `**` may have no operator before it, and where
`??` meets another logical operator there are always parentheses. -/
def binary (op : BinaryOperator) (left right : Child) : Layout :=
  let leftMinimum :=
    if left.1.mixesNullish op then Node.primaryPrecedence
    else if op == .exponentiation then postfixPrecedence
    else op.precedence
  let rightMinimum :=
    if right.1.mixesNullish op then Node.primaryPrecedence
    else (Operator.binary op).operandPrecedence
  left.under leftMinimum ++ operator op.spelling.toList ++ right.under rightMinimum

/-- The mark of an optional link before a bracket. -/
def optionalMark (isOptional : Bool) : Layout := when isOptional (mark .questionDot)

def arguments (cs : List Child) : Layout := parenthesised (list (cs.map plain))

def jump (w : Word) (label : Option String) : Layout :=
  word w ++ (label.map text).getD []

/-- A node from its children. `inHead` says that it stands in the head of a loop, which only the
declarations of variables can see. -/
def ofShape (inHead : Bool) : Shape Child → Layout
  | .bindingName name | .definitionName name | .identifier name => text name
  | .arrayPattern elements rest =>
    let element := fun (d : Option (Defaulted Child)) =>
      match d with
      | some d => d.target.plain ++ fallback d.fallback
      | none => []
    let rest' := rest.toList.map fun c => mark .ellipsis ++ c.plain
    bracketed (list (elements.map element ++ rest') ++
      when (rest.isNone && elements.getLast?.any Option.isNone) (mark .comma))
  | .objectPattern properties rest =>
    braced (list (properties.map plain ++ rest.toList.map fun c => mark .ellipsis ++ c.plain))
  | .patternProperty k target value shorthand =>
    when (!shorthand) (key k ++ mark .colon ++ [.space]) ++ target.plain ++ fallback value
  | .signature parameters => list (parameters.map plain)
  | .parameter isRest pattern value =>
    when isRest (mark .ellipsis) ++ pattern.plain ++ fallback value
  | .functionDeclaration isAsync generator name parameters body
  | .functionExpression isAsync generator name parameters body =>
    function isAsync generator name parameters body
  | .arrowFunction isAsync parameters body =>
    when isAsync (word .asyncWord) ++
      (if isSingleName parameters.1 then parameters.plain else parameters.wrapped) ++
      operator Punctuator.arrow.spelling ++ arrowBody body
  | .classDeclaration name parent members | .classExpression name parent members =>
    classLayout name parent members
  | .variableDeclaration kind declarators =>
    word (variableWord kind) ++ list (declarators.map (declarator inHead))
  | .binary op left right => binary op left right
  | .assignment op target value =>
    target.under (assignmentPrecedence + 1) ++ operator op.spelling.toList ++ value.single
  | .unary op operand => text op.spelling ++ operand.under unaryPrecedence
  | .postfixed op operand => operand.under memberPrecedence ++ text op.spelling
  | .conditional test consequent alternate =>
    test.under (Operator.conditional.precedence + 1) ++ operator ['?'] ++ consequent.single ++
      operator [':'] ++ alternate.single
  | .sequence elements => list (elements.map single)
  | .call isOptional _ callee cs =>
    callee.under memberPrecedence ++ optionalMark isOptional ++ arguments cs
  | .index isOptional _ object subscript =>
    object.under memberPrecedence ++ optionalMark isOptional ++ bracketed subscript.plain
  | .member isOptional _ object name =>
    object.under memberPrecedence ++ when (takesPoint object.1) (mark .dot) ++
      mark (if isOptional then .questionDot else .dot) ++ text name
  | .construct callee cs =>
    word .newWord ++
      (if callee.1.containsCall then callee.wrapped else callee.under memberPrecedence) ++
      arguments cs
  | .argument isSpread value => when isSpread (mark .ellipsis) ++ value.single
  | .importCall specifier => word .importWord ++ parenthesised specifier.single
  | .importMeta => word .importWord ++ mark .dot ++ text "meta"
  | .newTarget => word .newWord ++ mark .dot ++ text "target"
  | .superExpression => word .superWord
  | .thisExpression => word .thisWord
  | .yieldExpression delegates operand =>
    word .yieldWord ++ when delegates (mark .asterisk) ++
      optional (fun c => .space :: c.single) operand
  | .arrayLiteral elements =>
    bracketed (list (elements.map arrayElement) ++
      when (elements.getLast?.any isHole) (mark .comma))
  | .bigIntLiteral digits => text digits ++ [.glued ['n']]
  | .booleanLiteral value => word (if value then .trueWord else .falseWord)
  | .nullLiteral => word .nullWord
  | .numberLiteral value => number value
  | .objectLiteral members => braced (list (members.map plain))
  | .objectMember content => objectMember content
  | .regexLiteral value => [.regex value.toList]
  | .stringLiteral value raw => (raw.map text).getD (string value)
  | .templateLiteral parts => template parts
  | .taggedTemplate tag parts => tag.under memberPrecedence ++ template parts
  | .undefinedLiteral => word .voidWord ++ text "0"
  | .block body => block body
  | .breakStatement label => jump .breakWord label
  | .continueStatement label => jump .continueWord label
  | .debuggerStatement => word .debuggerWord
  | .directive raw => text raw
  | .doWhileLoop body condition =>
    word .doWord ++ body.body ++ closing body.1 ++ .space :: word .whileWord ++
      .space :: condition.wrapped
  | .emptyStatement => []
  | .exportDeclaration declaration isDefault =>
    word .exportWord ++ when isDefault (word .defaultWord) ++ declaration.plain
  | .exportDefault expression =>
    word .exportWord ++ word .defaultWord ++
      if expression.1.startsLikeDeclaration then expression.wrapped else expression.single
  | .exportList names source =>
    word .exportWord ++ moduleNames names ++
      (source.map fun s => word .fromWord ++ string s).getD []
  | .expressionStatement expression =>
    if expression.1.startsLikeStatement then expression.wrapped else expression.plain
  | .forLoop head body =>
    word .forWord ++ when (head matches .each _ true _ _) (word .awaitWord) ++
      .space :: parenthesised (forHead head) ++ body.body
  | .ifStatement test consequent alternate =>
    word .ifWord ++ .space :: test.wrapped ++ consequent.body ++
      optional (fun c => closing consequent.1 ++ .space :: word .elseWord ++ c.body) alternate
  | .importDeclaration defaultName names source =>
    word .importWord ++ optional plain defaultName ++
      when (defaultName.isSome && names.isSome) comma ++ (names.map moduleNames).getD [] ++
      when (defaultName.isSome || names.isSome) (word .fromWord) ++ string source
  | .labelledStatement label statement => text label ++ mark .colon ++ statement.body
  | .returnStatement value => word .returnWord ++ optional (fun c => .space :: c.plain) value
  | .switchStatement subject cases =>
    word .switchWord ++ .space :: subject.wrapped ++
      .space :: braced (switchCases false cases ++ [.newline])
  | .switchCase test body =>
    (match test with
      | some c => word .caseWord ++ .space :: c.plain
      | none => word .defaultWord) ++
      mark .colon ++ indented (statements body)
  | .throwStatement value => word .throwWord ++ .space :: value.plain
  | .tryStatement body handler finalizer =>
    word .tryWord ++ body.plain ++ optional (fun c => .space :: c.plain) handler ++
      optional (fun c => .space :: word .finallyWord ++ c.plain) finalizer
  | .catchClause pattern body =>
    word .catchWord ++ optional (fun c => .space :: c.wrapped) pattern ++ body.plain
  | .variableStatement declaration => declaration.plain
  | .whileLoop condition body => word .whileWord ++ .space :: condition.wrapped ++ body.body
  | .withStatement object body => word .withWord ++ .space :: object.wrapped ++ body.body
  | .program body => statements body

end Layout

/-- A node as an expression or statement of its own. -/
def Node.layout (n : Node) : Layout :=
  Child.plain (n, n.fold fun _ children inHead => ofShape inHead children)

/-- The text of a node in a style. -/
def Node.print (style : Style) (n : Node) : List Char :=
  n.layout.render style

/-- The text of a program in a style. -/
def Program.print (style : Style) (p : Program) : List Char :=
  p.root.print style

end ScriptMin
