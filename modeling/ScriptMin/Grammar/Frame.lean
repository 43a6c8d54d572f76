import ScriptMin.SyntaxError
import ScriptMin.Tree.Binding

/-!
# The context of a construct

A `Frame` holds what the grammar asks about the surroundings of a construct: the function it stands
in, the loops and labels around it, and whether the code is strict. Frames are values: a construct
passes changed copies to its parts, and nothing that happens inside a part changes the frame of the
whole. The checks on names depend on the frame alone.
-/

namespace ScriptMin.Grammar

open Source

/-- A label around a statement. `isLoop` says that the statement is a loop, perhaps behind further
labels. -/
structure Label where
  name : String
  isLoop : Bool
deriving DecidableEq, Repr

/-- The surroundings of a construct. -/
structure Frame where
  generator : Bool
  isAsync : Bool
  strict : Bool
  inFunction : Bool
  inLoop : Bool
  inSwitch : Bool
  /-- Inside a parameter list, where `yield` is no expression. -/
  inParameters : Bool
  /-- Inside a method, an accessor or a field initialiser. -/
  allowsSuper : Bool
  /-- The labels around the statement, the innermost first. -/
  labels : List Label
  /-- How many of the innermost labels belong to the statement that comes next. -/
  directLabels : Nat
deriving DecidableEq, Repr

namespace Frame

/-- The surroundings of a program. -/
def topLevel (strict : Bool) : Frame where
  generator := false
  isAsync := false
  strict
  inFunction := false
  inLoop := false
  inSwitch := false
  inParameters := false
  allowsSuper := false
  labels := []
  directLabels := 0

/-- The surroundings inside a function. Only strictness is handed down. -/
def function (f : Frame) (generator isAsync : Bool) : Frame :=
  { topLevel f.strict with generator, isAsync, inFunction := true }

/-- The surroundings inside a method, an accessor or a field initialiser. -/
def method (f : Frame) (generator isAsync : Bool) : Frame :=
  { f.function generator isAsync with allowsSuper := true }

/-- The surroundings inside an arrow function, which is never a generator and has the `super` of the
code around it. -/
def arrow (f : Frame) (isAsync : Bool) : Frame :=
  { f.function false isAsync with allowsSuper := f.allowsSuper }

/-- The surroundings of the heritage and the keys of a class, which are strict code of the function
around the class. -/
def classBody (f : Frame) : Frame :=
  { f with strict := true, directLabels := 0 }

def parameters (f : Frame) : Frame := { f with inParameters := true }

def loopBody (f : Frame) : Frame := { f with inLoop := true }

def switchBody (f : Frame) : Frame := { f with inSwitch := true }

/-- The surroundings of the statement after a label. -/
def labelled (f : Frame) (name : String) : Frame :=
  { f with labels := ⟨name, false⟩ :: f.labels, directLabels := f.directLabels + 1 }

/-- The surroundings within a statement that is no label. The labels right before a loop become
labels of a loop. -/
def statement (f : Frame) (isLoop : Bool) : Frame :=
  { f with
    labels :=
      if isLoop then
        (f.labels.take f.directLabels).map (fun l => { l with isLoop := true }) ++
          f.labels.drop f.directLabels
      else f.labels
    directLabels := 0 }

def findLabel? (f : Frame) (name : String) : Option Label :=
  f.labels.find? (·.name == name)

end Frame

/-! ## Names -/

/-- What a name is bound as: a parameter, or anything else. -/
inductive Binding where
  | declaration
  | parameter
deriving DecidableEq, Repr

/-- A name and the position where it stands. -/
structure Name where
  text : String
  position : Nat
deriving DecidableEq, Repr

def Name.ofToken (t : Token) : Name := ⟨t.text, t.span.start⟩

def isEvalOrArguments (name : String) : Bool :=
  name == "eval" || name == "arguments"

/-- Refuses `yield` as a name in a generator and in strict code. -/
def checkYield (generator strict : Bool) (kind : Binding) (name : Name) : Except SyntaxError Unit :=
  if name.text != "yield" then .ok ()
  else if generator then .error ⟨.yieldIdentifierInGenerator, name.position⟩
  else if strict then
    match kind with
    | .declaration => .error ⟨.yieldIdentifierInStrictMode, name.position⟩
    | .parameter => .error ⟨.yieldParameterInStrictMode, name.position⟩
  else .ok ()

/-- Refuses a name that the frame does not allow to be bound. The names of parameters are checked
for `eval` and `arguments` after the body, by `checkParameterNames`. -/
def checkBinding (f : Frame) (kind : Binding) (name : Name) : Except SyntaxError Unit := do
  checkYield f.generator f.strict kind name
  if f.strict && kind == .declaration && isEvalOrArguments name.text then
    .error ⟨.evalOrArgumentsInStrictMode name.text, name.position⟩

/-- Refuses a variable that the frame does not allow to be read. -/
def checkReference (f : Frame) (name : Name) : Except SyntaxError Unit :=
  checkYield f.generator f.strict .declaration name

/-- Refuses a label that the frame does not allow. -/
def checkLabel (f : Frame) (t : Token) : Except SyntaxError Unit :=
  if t.text != "yield" then .ok ()
  else if f.generator then .error (t.error .yieldLabelInGenerator)
  else if f.strict then .error (t.error .yieldIdentifierInStrictMode)
  else .ok ()

/-- Refuses parameters that a body may make wrong: its directive makes the parameters strict code
too. `unique` forbids two of one name even in other code. -/
def checkParameterNames (outerStrict strict unique : Bool) (seen : List String) :
    List Name → Except SyntaxError Unit
  | [] => .ok ()
  | name :: rest => do
    if strict && !outerStrict then
      checkYield false true .parameter name
    if strict && isEvalOrArguments name.text then
      .error ⟨.evalOrArgumentsInStrictMode name.text, name.position⟩
    if seen.contains name.text && (strict || unique) then
      .error ⟨.duplicateParameter name.text, name.position⟩
    checkParameterNames outerStrict strict unique (name.text :: seen) rest

/-- The names that a pattern binds, each with its place. -/
def boundNames (pattern : Node) : List Name :=
  pattern.boundNames.map fun (text, span) => ⟨text, span.start⟩

/-- Whether a parameter is a plain name. -/
def isPlainParameter (parameter : Node) : Bool :=
  match parameter.shape with
  | .parameter false ⟨_, .bindingName _⟩ none => true
  | _ => false

/-- Refuses a parameter list that a body makes wrong. Only a list of plain names can hold one name
twice. -/
def checkParameters (outerStrict strict unique : Bool) (signature : Node) :
    Except SyntaxError Unit :=
  match signature.shape with
  | .signature parameters =>
    let names := parameters.flatMap fun p =>
      match p.shape with
      | .parameter _ pattern _ => boundNames pattern
      | _ => []
    checkParameterNames outerStrict strict (unique || !parameters.all isPlainParameter) [] names
  | _ => .ok ()

end ScriptMin.Grammar
