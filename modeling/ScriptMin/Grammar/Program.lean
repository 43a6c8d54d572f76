import ScriptMin.Grammar.Expression
import ScriptMin.Grammar.Statement

/-!
# Programs

`rules` ties the constructs together: at each level of nesting they are read with the rules of the
level below. `Program.parse` reads a whole source with more levels than it can need, since no more
than two constructs can start without a character between them.
-/

namespace ScriptMin

open Grammar Parse

namespace Grammar

/-- The constructs, nested at most `depth` deep. -/
def rules (bound : Nat) : Nat → Rules
  | 0 =>
    { bound
      expression := fun _ _ => exhausted
      statement := fun _ => exhausted
      pattern := fun _ _ => exhausted
      construct := fun _ _ => exhausted }
  | depth + 1 =>
    { bound
      expression := fun f e => expression (rules bound depth) f e
      statement := fun f => statement (rules bound depth) f
      pattern := fun f kind => pattern (rules bound depth) f kind
      construct := fun f t => construct (rules bound depth) f t }

theorem bound_rules (bound depth : Nat) : (rules bound depth).bound = bound := by
  cases depth <;> rfl

/-- Rules for a source of this many characters. -/
def rulesFor (length : Nat) : Rules :=
  rules (length + 2) (4 * (length + 1))

/-- Runs a reader over a whole source. The bound of its rules is never reached, so the end of the
source stands in for it. -/
def readSource {α : Type} (source : List Char) (read : Rules → Parse α) : Except SyntaxError α :=
  match (read (rulesFor source.length)).run (.ofSource source) with
  | .ok (value, _) => .ok value
  | .error (.refused error) => .error error
  | .error .exhausted => .error ⟨.unexpectedEnd, Source.byteLength source⟩

end Grammar

/-- How a program is run: as a script, whose variables are global, or as a module, which is strict
code. -/
inductive Mode where
  | global
  | module
deriving DecidableEq, Repr

namespace Mode

def name : Mode → String
  | .global => "global"
  | .module => "module"

def ofName? : String → Option Mode
  | "global" => some .global
  | "module" => some .module
  | _ => none

def unknownMessage (name : String) : String :=
  "unknown top-level mode \x60" ++ name ++ "\x60"

end Mode

/-- A program, and whether its code is strict. -/
structure Program where
  root : Node
  mode : Mode
  strict : Bool

namespace Program

/-- The statements of a program. -/
def body (p : Program) : List Node :=
  match p.root.shape with
  | .program statements => statements
  | _ => []

/-- The directives and statements up to the end of the input. -/
def read (mode : Mode) (stop : Nat) (rules : Rules) : Parse Program := do
  let (directives, strict) ← prologue rules.bound (mode == .module)
  let frame := Frame.topLevel strict
  let statements ← collect rules.bound do
    if ← took .endOfInput then return none else return some (← rules.statement frame)
  return ⟨⟨⟨0, stop⟩, .program (directives ++ statements)⟩, mode, strict⟩

/-- The program that a source is. -/
def parse (mode : Mode) (source : List Char) : Except SyntaxError Program :=
  readSource source (read mode (Source.byteLength source))

end Program

end ScriptMin
