import ScriptMin.CommandLine.Arguments
import ScriptMin.Config.Options

/-!
# A run of the program

The program minifies one input, a file or the standard input, to a file or to the standard output.
`run` is written for any host that gives it files, and stops at the first thing that fails.
-/

namespace ScriptMin.CommandLine

/-- Why a file cannot be read or written. -/
inductive FileError where
  | notFound
  | notDirectory
  | isDirectory
  | nameTooLong
  | denied
  | notUnicode
  | other (text : String)
deriving DecidableEq, Repr

def FileError.message : FileError → String
  | .notFound => "No such file or directory (os error 2)"
  | .notDirectory => "Not a directory (os error 20)"
  | .isDirectory => "Is a directory (os error 21)"
  | .nameTooLong => "File name too long (os error 36)"
  | .denied => "Permission denied (os error 13)"
  | .notUnicode => "stream did not contain valid UTF-8"
  | .other text => text

/-- What a run needs of its surroundings. -/
structure Host (m : Type → Type) where
  readInput : m (Except FileError String)
  readFile : String → m (Except FileError String)
  writeFile : String → String → m (Except FileError Unit)

/-- How a run ends: its exit status and what it has printed. -/
structure Outcome where
  status : Nat
  output : String
  errors : String
deriving DecidableEq, Repr

/-- The name of the program in its messages. -/
def programName : String := "compact-js"

def versionText : String := programName ++ " 0.1.0"

def helpText : String :=
  "\n".intercalate
    [versionText,
     "JavaScript minifier",
     "",
     "USAGE:",
     "    compact-js [FLAGS] [OPTIONS] <input>",
     "",
     "FLAGS:",
     "        --beautify       Indent and space the output",
     "    -h, --help           Prints help information",
     "        --no-compress    Skip the rewrite rules",
     "        --no-mangle      Keep all names",
     "    -V, --version        Prints version information",
     "",
     "OPTIONS:",
     "        --config <config>    JSON file with options. Defaults to the recommended options",
     "    -m, --mode <mode>        " ++
       "Whether file is a module or global script. Overrides the config file",
     "    -o, --output <output>    Where to write the minified code. Defaults to stdout",
     "        --passes <passes>    How many times to apply the rewrite rules",
     "",
     "ARGS:",
     "    <input>    File to minify; \x60-\x60 for stdin"]

def Notice.text : Notice → String
  | .help => helpText
  | .version => versionText

namespace Outcome

/-- A run that printed this and nothing else. -/
def printed (text : String) : Outcome := ⟨0, text, ""⟩

def failed (message : String) : Outcome := ⟨1, "", programName ++ ": " ++ message ++ "\n"⟩

/-- Arguments that ask for no run. -/
def ofInterruption : Interruption → Outcome
  | .notice n => printed (n.text ++ "\n")
  | .error e => ⟨1, "", "error: " ++ e.message ++ "\n\nFor more information try --help\n"⟩

end Outcome

/-- Says which file could not be used, and why. -/
def fileMessage (path : String) (e : FileError) : String := path ++ ": " ++ e.message

/-- Says where a source is wrong, and why. -/
def syntaxMessage (name : String) (source : List Char) (e : SyntaxError) : String :=
  let (line, column) := e.lineColumn source
  name ++ ":" ++ toString line ++ ":" ++ toString column ++ ": " ++ e.cause.message

/-- Says what is wrong with a tree, and where in the source it stands. -/
def invariantMessage (source : List Char) (e : InvariantError) : String :=
  let place := fun (span : Source.Span) =>
    " at \"" ++ String.ofList ((span.slice source).flatMap Config.quotedChar) ++ "\"@" ++
      toString span.start ++ ".." ++ toString span.stop
  "internal invariant violated: " ++ e.broken.message ++ (e.span.map place).getD ""

/-- Says why a source has no code. -/
def minifyMessage (name : String) (source : List Char) : MinifyError → String
  | .parsing e => syntaxMessage name source e
  | .rewriting e => "compression failed: " ++ invariantMessage source e
  | .printing e => "printing failed: " ++ invariantMessage source e

/-- Whether the input is the standard input. -/
def Arguments.readsInput (a : Arguments) : Bool := a.input == "-"

section

variable {m : Type → Type} [Monad m]

/-- The options of a run. -/
def Host.options (h : Host m) (a : Arguments) : ExceptT String m Options := do
  match a.config with
  | none => return a.override .recommended
  | some path =>
    match ← h.readFile path with
    | .error e => throw (fileMessage path e)
    | .ok text =>
      match Config.read Config.options text.toList with
      | .ok o => return a.override o
      | .error f => throw (path ++ ": " ++ f.message text.toList)

/-- The code that the input is minified to. -/
def Host.minified (h : Host m) (a : Arguments) : ExceptT String m String := do
  let o ← h.options a
  match ← (if a.readsInput then h.readInput else h.readFile a.input) with
  | .error e => throw (fileMessage a.input e)
  | .ok text =>
    let source := text.toList
    match minifyChecked o source with
    | .ok code => return String.ofList code
    | .error e =>
      throw (minifyMessage (if a.readsInput then "<stdin>" else a.input) source e)

/-- What a run prints. With an output file that is nothing. -/
def Host.printed (h : Host m) (a : Arguments) : ExceptT String m String := do
  let code ← h.minified a
  match a.output with
  | none => return code
  | some path =>
    match ← h.writeFile path code with
    | .error e => throw (fileMessage path e)
    | .ok () => return ""

/-- A run of the program. -/
def run (h : Host m) (arguments : List String) : m Outcome := do
  match Arguments.parse arguments with
  | .error i => return .ofInterruption i
  | .ok a =>
    match ← (h.printed a).run with
    | .ok text => return .printed text
    | .error message => return .failed message

end

end ScriptMin.CommandLine
