import ScriptMin.Grammar.Program
import ScriptMin.Rename.Environment

/-!
# Renaming a program

`Scoped α` is a piece of syntax whose names are still open: what it does with names, and what it
becomes once the names around it are known. A tree is turned into one from the leaves up, and the
names of the whole program close it.
-/

namespace ScriptMin

namespace Rename

/-- Something with open names. -/
structure Scoped (α : Type) where
  items : List Item
  close : Environment → α

namespace Scoped

variable {α β : Type}

instance : Applicative Scoped where
  pure a := ⟨[], fun _ => a⟩
  seq f a := ⟨f.items ++ (a ()).items, fun e => f.close e ((a ()).close e)⟩

/-- Something that is done with names. -/
def item (i : Item) : Scoped Unit := ⟨[i], fun _ => ()⟩

def reads (name : String) : Scoped String := ⟨[.reads name], fun e => e.read name⟩

def declares (how : Declares) (strict : Bool) (name : String) : Scoped String :=
  ⟨[.declares name how strict], fun e => e.declared name how strict⟩

/-- The same in a scope of its own. -/
def within (kind : ScopeKind) (a : Scoped α) : Scoped α :=
  ⟨[.scope kind a.items], fun e => a.close (e.inside kind a.items)⟩

def option : Option (Scoped α) → Scoped (Option α)
  | none => pure none
  | some a => some <$> a

def list : List (Scoped α) → Scoped (List α)
  | [] => pure []
  | a :: rest => (· :: ·) <$> a <*> list rest

/-- A shape whose children have open names, and nothing else. -/
def shape (s : Shape (Scoped α)) : Scoped (Shape α) :=
  ⟨s.children.flatMap (·.items), fun e => s.map (·.close e)⟩

end Scoped

open Scoped

/-- What a node stands for where it stands: a value or a target that is assigned to, a declaration,
or the body of a function, which has the scope of the parameters. -/
inductive Role where
  | value
  | declaration (how : Declares)
  | body
deriving DecidableEq, Repr

/-- A child beside itself with open names, which depend on its role and on whether it is strict
code. -/
abbrev Child := Node × (Role → Bool → Scoped Node)

/-- Whether a body starts with the directive that makes it strict. -/
def isStrictBody (body : Node) : Bool :=
  match body.shape with
  | .block statements =>
    (statements.takeWhile fun n => n.shape matches .directive _).any fun n =>
      match n.shape with
      | .directive raw => raw.toList.tail.dropLast == "use strict".toList
      | _ => false
  | _ => false

/-- Parameters and the body they belong to, in a scope of their own. -/
def functionParts (strict : Bool) (parameters body : Child) : Scoped (Node × Node) :=
  let strict := strict || isStrictBody body.1
  within .closure (Prod.mk <$> parameters.2 .value strict <*> body.2 .body strict)

def key (strict : Bool) : Key Child → Scoped (Key Node)
  | .direct text => pure (.direct text)
  | .computed c => .computed <$> c.2 .value strict

/-- The value of a member. A directive of an accessor does not count for the names in it. -/
def memberValue (strict : Bool) : MemberValue Child → Scoped (MemberValue Node)
  | .getter body => .getter <$> within .closure (body.2 .body strict)
  | .method isAsync generator parameters body =>
    (fun (parameters, body) => .method isAsync generator parameters body) <$>
      functionParts strict parameters body
  | .property initializer => .property <$> option (initializer.map fun c => c.2 .value strict)
  | .setter parameter body =>
    within .closure (MemberValue.setter <$> parameter.2 (.declaration .lexical) strict <*>
      body.2 .body strict)

def classMember (m : ClassMember Child) : Scoped (ClassMember Node) :=
  (⟨·, m.isStatic, ·⟩) <$> key true m.key <*> memberValue true m.value

/-- The heritage and the members of a class, which are strict code. -/
def classParts (parent : Option Child) (members : List (ClassMember Child)) :
    Scoped (Option Node × List (ClassMember Node)) :=
  Prod.mk <$> option (parent.map fun c => c.2 .value true) <*> list (members.map classMember)

/-- A member of an object literal. A shorthand whose variable has another name now is written out.
-/
def objectMember (span : Source.Span) (strict : Bool) :
    ObjectMember Child → Scoped (ObjectMember Node)
  | .valued k value => .valued <$> key strict k <*> memberValue strict value
  | .shorthand name =>
    (fun name' =>
      if name' == name then .shorthand name
      else .valued (.direct name) (.property (some ⟨span, .identifier name'⟩))) <$> reads name
  | .spread c => .spread <$> c.2 .value strict

/-- Whether a property of a pattern can still be a shorthand. -/
def staysShorthand (k : Key Node) (target : Node) : Bool :=
  match k, target.shape with
  | .direct text, .bindingName name => text == name
  | _, _ => true

/-- A property of a pattern. -/
def patternProperty (role : Role) (strict : Bool) (k : Key Child) (target : Child)
    (fallback : Option Child) (shorthand : Bool) : Scoped (Shape Node) :=
  (fun k target fallback =>
    .patternProperty k target fallback (shorthand && staysShorthand k target)) <$>
    key strict k <*> target.2 role strict <*> option (fallback.map fun c => c.2 .value strict)

/-- Children in the given roles, in no scope of their own. -/
def inRole (role : Role) (strict : Bool) (c : Child) : Scoped Node := c.2 role strict

/-- Whether a call may read any name. -/
def isDirectEval (callee : Node) : Bool :=
  match callee.shape with
  | .identifier name => name == "eval"
  | _ => false

/-- A shape whose children are values in no scope of their own. -/
def plainShape (strict : Bool) (s : Shape Child) : Scoped (Shape Node) :=
  shape (s.map (inRole .value strict))

def variableDeclares : VariableKind → Declares
  | .hoisted => .variable
  | .block | .constant => .lexical

/-- The shape of a node in its role. The name of a function or class expression is seen only inside
it. -/
def openShape (span : Source.Span) (role : Role) (strict : Bool) (s : Shape Child) :
    Scoped (Shape Node) :=
  let value := inRole .value strict
  let declaration (how : Declares) := inRole (.declaration how) strict
  match s with
  | .bindingName name =>
    .bindingName <$>
      match role with
      | .declaration how => declares how strict name
      | _ => reads name
  | .definitionName name =>
    match role with
    | .declaration how => .definitionName <$> declares how strict name
    | _ => plainShape strict s
  | .identifier name => .identifier <$> reads name
  | .arrayPattern elements rest =>
    shape (.arrayPattern
      (elements.map (·.map fun d => ⟨inRole role strict d.target, d.fallback.map value⟩))
      (rest.map (inRole role strict)))
  | .objectPattern properties rest =>
    shape (.objectPattern (properties.map (inRole role strict)) (rest.map (inRole role strict)))
  | .patternProperty k target fallback shorthand =>
    patternProperty role strict k target fallback shorthand
  | .parameter isRest pattern fallback =>
    shape (.parameter isRest (declaration .lexical pattern) (fallback.map value))
  | .variableDeclaration kind declarators =>
    shape (.variableDeclaration kind (declarators.map fun d =>
      ⟨declaration (variableDeclares kind) d.pattern, d.initializer.map value⟩))
  | .functionDeclaration isAsync generator name parameters body =>
    (fun name (parameters, body) =>
      .functionDeclaration isAsync generator name parameters body) <$>
      option (name.map (declaration .function)) <*> functionParts strict parameters body
  | .functionExpression isAsync generator name parameters body =>
    let parts := functionParts strict parameters body
    match name with
    | none =>
      (fun (parameters, body) =>
        .functionExpression isAsync generator none parameters body) <$> parts
    | some name =>
      within .block ((fun name (parameters, body) =>
        .functionExpression isAsync generator (some name) parameters body) <$>
        declaration .lexical name <*> parts)
  | .arrowFunction isAsync parameters body =>
    (fun (parameters, body) => .arrowFunction isAsync parameters body) <$>
      functionParts strict parameters body
  | .classDeclaration name parent members =>
    (fun name (parent, members) => .classDeclaration name parent members) <$>
      option (name.map (declaration .lexical)) <*> classParts parent members
  | .classExpression name parent members =>
    within .block ((fun name (parent, members) => .classExpression name parent members) <$>
      option (name.map (declaration .lexical)) <*> classParts parent members)
  | .objectMember content => .objectMember <$> objectMember span strict content
  | .call _ _ callee _ =>
    if isDirectEval callee.1 then item .readsAny *> plainShape strict s else plainShape strict s
  | .withStatement .. => item .readsAny *> plainShape strict s
  | .block _ =>
    if role = .body then plainShape strict s else within .block (plainShape strict s)
  | .forLoop .. => within .block (plainShape strict s)
  | .switchStatement subject cases =>
    Shape.switchStatement <$> value subject <*> within .block (list (cases.map value))
  | .catchClause pattern body =>
    within .block (shape (.catchClause (pattern.map (declaration .lexical))
      (inRole .body strict body)))
  | .importDeclaration defaultName names source =>
    shape (.importDeclaration (defaultName.map (declaration .lexical))
      (names.map (·.map (declaration .lexical))) source)
  | .exportList names source =>
    (match names, source with
      | .listed names, none => item (.exports (names.map (·.target)))
      | _, _ => pure ()) *> pure (.exportList (names.map (·.1)) source)
  | .exportDeclaration .. =>
    item (.exporting true) *> plainShape strict s <* item (.exporting false)
  | _ => plainShape strict s

/-- A tree with open names. -/
def openNode (root : Node) : Role → Bool → Scoped Node :=
  root.fold fun n s role strict => n.withShape <$> openShape n.span role strict s

end Rename

/-- Which names are kept: those of the program itself unless `topLevel` is set. Names in `reserved`
are never given. -/
structure RenameOptions where
  topLevel : Bool
  reserved : List String
deriving DecidableEq, Repr

def RenameOptions.default : RenameOptions := ⟨false, []⟩

/-- A program in which declarations have short names. -/
def Program.rename (o : RenameOptions) (p : Program) : Program :=
  let root := Rename.openNode p.root .value p.strict
  { p with root := root.close (.ofProgram o.reserved o.topLevel root.items) }

end ScriptMin
