import ScriptMin.CommandLine.Run

/-!
# The program

Runs the command line on the files of the system.
-/

namespace ScriptMin.CommandLine

/-- The number of an error. Some calls of the system give it negated. -/
def errorNumber (code : UInt32) : UInt32 :=
  if code < 0x80000000 then code else 0 - code

/-- Why the system refused a file. -/
def FileError.ofSystem : IO.Error → FileError
  | .noFileOrDirectory .. => .notFound
  | .permissionDenied .. => .denied
  | .inappropriateType _ code details | .invalidArgument _ code details =>
    match errorNumber code with
    | 20 => .notDirectory
    | 21 => .isDirectory
    | 36 => .nameTooLong
    | _ => .other details
  | e => .other (toString e)

/-- The text that bytes are in UTF-8. -/
def textOf (bytes : ByteArray) : Except FileError String :=
  match String.fromUTF8? bytes with
  | some text => .ok text
  | none => .error .notUnicode

/-- What an action gives, or why the system refused it. -/
def attempt {α : Type} (action : IO α) : IO (Except FileError α) :=
  try return .ok (← action) catch e => return .error (.ofSystem e)

/-- The system as the surroundings of a run. -/
def systemHost : Host IO where
  readInput := do return (← attempt (do (← IO.getStdin).readBinToEnd)).bind textOf
  readFile path := do return (← attempt (IO.FS.readBinFile path)).bind textOf
  writeFile path content := attempt (IO.FS.writeFile path content)

end ScriptMin.CommandLine

open ScriptMin.CommandLine in
/-- Runs the program and ends with its status. -/
def main (arguments : List String) : IO UInt32 := do
  let outcome ← run systemHost arguments
  IO.print outcome.output
  IO.eprint outcome.errors
  return outcome.status.toUInt32
