import ScriptMin.Literal.Numeric
import ScriptMin.Minify

/-!
# Arguments of the program

Arguments are scanned from left to right into options and at most one input. A request for help ends
the scan, and so does an argument that means nothing. What has been scanned is checked afterwards:
no option may be given twice, and options with a value need one that can be read.
-/

namespace ScriptMin.CommandLine

/-- An option without a value. -/
inductive Switch where
  | keepCode
  | keepNames
  | beautify
deriving DecidableEq, Repr

/-- An option with a value. -/
inductive Setting where
  | output
  | mode
  | config
  | passes
deriving DecidableEq, Repr

/-- What an argument can ask for instead of a run. -/
inductive Notice where
  | help
  | version
deriving DecidableEq, Repr

/-- What the name of an option stands for. -/
inductive Meaning where
  | switch (s : Switch)
  | setting (s : Setting)
  | notice (n : Notice)
deriving DecidableEq, Repr

/-- Options by their long names. -/
def longNames : List (String × Meaning) :=
  [("no-compress", .switch .keepCode), ("no-mangle", .switch .keepNames),
   ("beautify", .switch .beautify), ("output", .setting .output), ("mode", .setting .mode),
   ("config", .setting .config), ("passes", .setting .passes), ("help", .notice .help),
   ("version", .notice .version)]

/-- Options by their short names. -/
def shortNames : List (Char × Meaning) :=
  [('o', .setting .output), ('m', .setting .mode), ('h', .notice .help), ('V', .notice .version)]

/-- Why arguments are refused. -/
inductive UsageError where
  | unknownArgument (text : String)
  | repeatedOption
  | missingValue (s : Setting)
  | invalidValue (s : Setting) (text : String)
  | missingInput
deriving DecidableEq, Repr

/-- The long name of an option with a value. -/
def Setting.name : Setting → String
  | .output => "output"
  | .mode => "mode"
  | .config => "config"
  | .passes => "passes"

namespace UsageError

def message : UsageError → String
  | .unknownArgument text =>
    "Found argument '" ++ text ++ "' which wasn't expected, or isn't valid in this context"
  | .repeatedOption =>
    "An argument was provided more than once, but cannot be used multiple times"
  | .missingValue s =>
    "The argument '--" ++ s.name ++ " <" ++ s.name ++
      ">' requires a value but none was supplied"
  | .invalidValue s text =>
    "Invalid value for '--" ++ s.name ++ " <" ++ s.name ++ ">': " ++ text
  | .missingInput => "The following required arguments were not provided:\n    <input>"

end UsageError

/-- What has been scanned. A setting may lack its value. -/
structure Scanned where
  switches : List Switch
  settings : List (Setting × Option String)
  input : Option String
deriving DecidableEq, Repr

/-- Why a scan ends before the last argument. -/
inductive Interruption where
  | notice (n : Notice)
  | error (e : UsageError)
deriving DecidableEq, Repr

/-! ## Scanning -/

/-- What one argument is. -/
inductive Piece where
  | input
  /-- All arguments after this one are inputs. -/
  | separator
  /-- An option, and the value that is written in the same argument. -/
  | option (m : Meaning) (value : Option String)
  | unknown
deriving DecidableEq, Repr

/-- A value without the equals signs before it. -/
def attachedValue (text : List Char) : String :=
  String.ofList (text.dropWhile (· == '='))

/-- An option by its long name. A value may follow an equals sign. -/
def longPiece (text : List Char) : Piece :=
  let name := text.takeWhile (· != '=')
  match longNames.find? fun (n, _) => n.toList == name with
  | some (_, m) =>
    .option m (if text.contains '=' then some (attachedValue (text.drop name.length)) else none)
  | none => .unknown

/-- An option by its short name. A value may follow at once. -/
def shortPiece : List Char → Piece
  | [] => .unknown
  | c :: rest =>
    match shortNames.lookup c with
    | some m => .option m (if rest.isEmpty then none else some (attachedValue rest))
    | none => .unknown

/-- What an argument is. More than two dashes before a long name are as good as two. -/
def piece (argument : String) : Piece :=
  match argument.toList with
  | ['-', '-'] => .separator
  | '-' :: '-' :: rest => longPiece (rest.dropWhile (· == '-'))
  | ['-'] => .input
  | '-' :: rest => shortPiece rest
  | _ => .input

namespace Scanned

/-- Nothing has been scanned yet. -/
def empty : Scanned := ⟨[], [], none⟩

/-- Another input. Only one is allowed. -/
def addInput (s : Scanned) (argument : String) : Except Interruption Scanned :=
  if s.input.isSome then .error (.error (.unknownArgument argument))
  else .ok { s with input := some argument }

def addSetting (s : Scanned) (setting : Setting) (value : Option String) : Scanned :=
  { s with settings := s.settings ++ [(setting, value)] }

/-- Scans arguments from left to right. A setting takes the argument after it if that can be no
option. -/
def scan (s : Scanned) : List String → Except Interruption Scanned
  | [] => .ok s
  | argument :: rest =>
    match piece argument with
    | .separator => rest.foldlM addInput s
    | .unknown => .error (.error (.unknownArgument argument))
    | .input => (s.addInput argument).bind fun s => s.scan rest
    | .option (.notice n) _ => .error (.notice n)
    | .option (.switch w) _ => { s with switches := s.switches ++ [w] }.scan rest
    | .option (.setting k) (some value) => (s.addSetting k (some value)).scan rest
    | .option (.setting k) none =>
      match rest with
      | [] => .ok (s.addSetting k none)
      | value :: rest' =>
        if piece value = .input then (s.addSetting k (some value)).scan rest'
        else (s.addSetting k none).scan (value :: rest')

end Scanned

/-! ## Checking -/

/-- What a run of the program is asked to do. -/
structure Arguments where
  input : String
  output : Option String
  mode : Option Mode
  config : Option String
  keepCode : Bool
  keepNames : Bool
  beautify : Bool
  passes : Option Nat
deriving DecidableEq, Repr

/-- A number of passes: decimal digits, perhaps after a plus sign, for a word of 32 bits. -/
def passCount? (text : String) : Option Nat :=
  let digits :=
    match text.toList with
    | '+' :: digits => digits
    | digits => digits
  let value := Literal.decimalValue digits
  if digits.isEmpty || !digits.all Char.isDigit || Nat.pow 2 32 ≤ value then none else some value

namespace Scanned

def isRepeated (s : Scanned) : Bool :=
  !decide (s.switches.Nodup) || !decide ((s.settings.map (·.1)).Nodup)

/-- The value of a setting as a value of its type. -/
def valueOf {α : Type} (s : Scanned) (setting : Setting) (read : String → Option α) :
    Except UsageError (Option α) :=
  match s.settings.lookup setting with
  | none => .ok none
  | some none => .error (.missingValue setting)
  | some (some text) =>
    match read text with
    | some value => .ok (some value)
    | none => .error (.invalidValue setting text)

/-- Checks what has been scanned. -/
def check (s : Scanned) : Except UsageError Arguments := do
  if s.isRepeated then throw .repeatedOption
  let output ← s.valueOf .output some
  let mode ← s.valueOf .mode Mode.ofName?
  let config ← s.valueOf .config some
  let passes ← s.valueOf .passes passCount?
  match s.input with
  | none => throw .missingInput
  | some input =>
    return { input, output, mode, config, passes,
             keepCode := s.switches.contains .keepCode
             keepNames := s.switches.contains .keepNames
             beautify := s.switches.contains .beautify }

end Scanned

/-- What arguments ask for. -/
def Arguments.parse (arguments : List String) : Except Interruption Arguments :=
  match Scanned.empty.scan arguments with
  | .error i => .error i
  | .ok s => s.check.mapError .error

/-- Options with what the arguments change in them. -/
def Arguments.override (a : Arguments) (o : Options) : Options :=
  let rewrite := if a.keepCode then none else o.rewrite
  { mode := a.mode.getD o.mode
    rewrite := rewrite.map fun r => { r with passes := a.passes.getD r.passes }
    rename := if a.keepNames then none else o.rename
    style := if a.beautify then .spacious else o.style }

end ScriptMin.CommandLine
