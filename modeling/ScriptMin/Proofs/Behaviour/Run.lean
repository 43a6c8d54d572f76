import Mathlib.Tactic.Common
import ScriptMin.Tree.Node

/-!
# Runs

What the flow of control of a program is about: values, of which only the truth matters, actions,
which are logged and answered by the world, and the ways in which a statement is left. A `Run` is a
computation over the log. It has no result if it goes on for ever without an end; a world that lets
an action take for ever ends a run there, so that two programs that never end can be compared up to
each of their actions.
-/

namespace ScriptMin.Behaviour

/-! ## Values -/

/-- A value. What is no primitive value, or a text that is not all characters, is known by an
identity. -/
inductive Value where
  | undefined
  | null
  | boolean (value : Bool)
  | number (value : Float)
  | bigInt (digits : String)
  | string (text : String)
  | object (identity : Nat)

/-- Whether the digits of a big integer, perhaps after a mark of their base, are all zero. -/
def isZero (digits : List Char) : Bool :=
  match digits with
  | '0' :: c :: rest => (if c.isDigit then c :: rest else rest).all (· == '0')
  | digits => digits.all (· == '0')

/-- Whether a value counts as true. Of the numbers, zero and NaN do not. -/
def Value.truth : Value → Bool
  | .undefined | .null => false
  | .boolean value => value
  | .number value => value < 0 || 0 < value
  | .bigInt digits => !isZero digits.toList
  | .string text => !text.isEmpty
  | .object _ => true

/-! ## Actions -/

/-- What can be seen of a run. -/
inductive Action where
  /-- An expression, or a class, is evaluated. -/
  | evaluate (expression : Node)
  /-- A value is given to the names of a pattern. -/
  | bind (pattern : Node) (value : Value)
  /-- The elements or members of a value are put into a literal. -/
  | spread (value : Value)
  /-- A value is made the key of a member. -/
  | key (value : Value)
  /-- The names of an object come into sight. -/
  | enter (object : Value)
  /-- A loop over elements or keys starts, goes to its next round, and is left before its end. -/
  | iterate (isOf awaits : Bool) (subject : Value)
  | next (target : Node) (iterator : Value)
  | close (iterator : Value)
  /-- A value becomes the default export. -/
  | exportDefault (value : Value)

/-- The actions so far, the last one first. -/
abbrev Log := List Action

/-- How an action ends. -/
inductive Outcome where
  | returns (value : Value)
  | throws (value : Value)
  | never

/-- What surrounds a run. -/
structure World where
  /-- How an action ends that follows these. -/
  perform : Log → Action → Outcome
  /-- Which object an expression makes. -/
  identity : Log → Node → Nat
  /-- Whether the evaluation of an expression that is an action can in truth not be seen. -/
  isSilent : Node → Bool
  /-- The value of an expression whose evaluation cannot be seen. -/
  unseen : Log → Node → Value
  /-- Whether a value is that of a case. -/
  same : Value → Value → Bool

/-! ## Computations -/

/-- How a run is left before its end. -/
inductive Exit where
  | returned (value : Value)
  | thrown (value : Value)
  | broken (label : Option String)
  | continued (label : Option String)
  /-- An action took for ever. -/
  | lost

/-- A computation that reads and extends the log and can be left early. -/
abbrev Run := ExceptT Exit (StateT Log Option)

namespace Run

/-- A value that depends on the log alone. -/
def reading {α : Type} (f : Log → α) : Run α := return f (← get)

/-- An action is logged, and the world answers it. -/
def perform (w : World) (action : Action) : Run Value := do
  let log ← get
  set (action :: log)
  match w.perform log action with
  | .returns value => return value
  | .throws value => throw (.thrown value)
  | .never => throw .lost

/-- Whether the value that a run comes to counts as true. -/
def holds (value : Run Value) : Run Bool := return (← value).truth

/-- A run whose value is not used. -/
def discard (value : Run Value) : Run Unit := do
  let _ ← value

/-- A value is returned. -/
def returning (value : Run Value) : Run Unit := do throw (.returned (← value))

/-- A run that ends where a jump out of it leads. -/
def stoppingAt (leads : Exit → Bool) (body : Run Unit) : Run Unit :=
  tryCatch body fun e => if leads e then return else throw e

end Run

namespace Exit

/-- A jump out of a loop or a `switch`. -/
def isBreak : Exit → Bool
  | .broken none => true
  | _ => false

/-- A jump to the end of a statement with this label. -/
def isBreakOf (label : String) : Exit → Bool
  | .broken (some l) => l == label
  | _ => false

/-- A jump to the next round of a loop with these labels. -/
def isContinue (labels : List String) : Exit → Bool
  | .continued none => true
  | .continued (some l) => labels.contains l
  | _ => false

end Exit

/-! ## Loops -/

/-- One round of a loop, and whether there is another one. -/
def goesOn (labels : List String) (body : Run Unit) : Run Bool :=
  tryCatch (do body; return true) fun e =>
    if e.isContinue labels then return true else if e.isBreak then return false else throw e

/-- A loop with a test before each round and a step after it. -/
def Run.loop (labels : List String) (test : Run Bool) (body step : Run Unit) : Run Unit := do
  if ← test then
    if ← goesOn labels body then
      step
      test |>.loop labels body step
partial_fixpoint

/-- A loop with a test after each round. -/
def loopOnce (labels : List String) (body : Run Unit) (test : Run Bool) : Run Unit := do
  if ← goesOn labels body then Run.loop labels test body (return)

/-- A round of a loop over elements, which closes the iterator where the loop is left. An error of
the closing itself does not replace the one that left the loop. -/
def closing (w : World) (labels : List String) (iterator : Value) (body : Run Unit) : Run Unit :=
  tryCatch body fun
    | .lost => throw .lost
    | .thrown value => do
      (Run.discard (Run.perform w (.close iterator))).stoppingAt fun e => e matches .thrown _
      throw (.thrown value)
    | e => do
      if !e.isContinue labels then Run.discard (Run.perform w (.close iterator))
      throw e

/-- A loop over the elements or the keys of a value. -/
def loopOver (w : World) (labels : List String) (isOf awaits : Bool) (target : Node)
    (subject : Run Value) (body : Run Unit) : Run Unit := do
  let iterator ← Run.perform w (.iterate isOf awaits (← subject))
  Run.loop labels (Run.holds (Run.perform w (.next target iterator)))
    (if isOf then closing w labels iterator body else body) (return)

/-! ## Errors -/

/-- A `try` with the code that handles an error, if there is any. -/
def handling (body : Run Unit) (handler : Option (Value → Run Unit)) : Run Unit :=
  tryCatch body fun e =>
    match e, handler with
    | .thrown value, some handle => handle value
    | e, _ => throw e

/-- A `try` with code that runs at its end, however that came. -/
def ending (body : Run Unit) (finalizer : Option (Run Unit)) : Run Unit :=
  match finalizer with
  | none => body
  | some final => do
    tryCatch body fun e => do
      if e matches .lost then throw e
      final
      throw e
    final

end ScriptMin.Behaviour
