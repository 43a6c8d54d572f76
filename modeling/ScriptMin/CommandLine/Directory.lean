import ScriptMin.CommandLine.Run
import ScriptMin.Source.Span

/-!
# Runs in memory

A working directory whose files are held in memory, for runs that touch nothing else. A path is
followed name by name, and every name before its last one has to lead to a directory. There are no
links, so the place that a path leads to hangs on its names alone (`Place.ofPath`).
-/

namespace ScriptMin.CommandLine

/-! ## Paths -/

/-- Where a path starts or, by its `..`, goes up to. -/
inductive Origin where
  /-- The directory some levels above the working directory. -/
  | above (levels : Nat)
  | root
deriving DecidableEq, Repr

/-- The names that lead from an origin to a file or a directory. -/
structure Place where
  origin : Origin
  names : List (List Char)
deriving DecidableEq, Repr

namespace Place

/-- Where a path is followed from. -/
def start (path : String) : Place :=
  ⟨if path.toList.head? == some '/' then .root else .above 0, []⟩

/-- The directory around a place. The root is around itself. -/
def parent (p : Place) : Place :=
  match p.names, p.origin with
  | [], .above levels => ⟨.above (levels + 1), []⟩
  | [], .root => p
  | names, origin => ⟨origin, names.dropLast⟩

/-- Where a name leads from a directory. -/
def step (p : Place) (name : List Char) : Place :=
  if name == ['.'] then p
  else if name == ['.', '.'] then p.parent
  else ⟨p.origin, p.names ++ [name]⟩

/-- The names of a path. Slashes that follow one another are one. -/
def namesOf (path : String) : List (List Char) :=
  (path.toList.splitOn '/').filter fun name => !name.isEmpty

/-- The place that a path leads to. -/
def ofPath (path : String) : Place :=
  (namesOf path).foldl step (start path)

/-- Whether a place lies somewhere below another one. -/
def isBelow (p q : Place) : Bool :=
  p.origin == q.origin && q.names.isPrefixOf p.names && q.names.length < p.names.length

end Place

/-- The greatest number of bytes in a name. -/
def nameLimit : Nat := 255

/-- The greatest number of bytes in a path. -/
def pathLimit : Nat := 4095

/-- Whether a path ends with a slash, as only one of a directory may. -/
def endsWithSlash (path : String) : Bool :=
  path.toList.getLast? == some '/'

/-! ## Files -/

/-- A directory: the files in it by their paths, and what stands on the standard input. -/
structure Directory where
  files : List (String × String)
  input : String
deriving DecidableEq, Repr

/-- What stands at a place. -/
inductive Entry where
  | directory
  | file (content : String)
  | nothing
deriving DecidableEq, Repr

namespace Directory

/-- What stands at a place: a file, or a directory if the place is an origin or a file is below
it. -/
def entry (d : Directory) (p : Place) : Entry :=
  match d.files.find? fun f => Place.ofPath f.1 == p with
  | some (_, content) => .file content
  | none =>
    if p.names.isEmpty || d.files.any fun f => (Place.ofPath f.1).isBelow p then .directory
    else .nothing

/-- Follows names from a directory to another one. -/
def enter (d : Directory) : Place → List (List Char) → Except FileError Place
  | p, [] => .ok p
  | p, name :: rest =>
    if nameLimit < Source.byteLength name then .error .nameTooLong
    else
      match d.entry (p.step name) with
      | .directory => d.enter (p.step name) rest
      | .file _ => .error .notDirectory
      | .nothing => .error .notFound

/-- The directory in which the last name of a path is looked up. -/
def containing (d : Directory) (path : String) : Except FileError Place :=
  if path.isEmpty then .error .notFound
  else if pathLimit < path.utf8ByteSize then .error .nameTooLong
  else d.enter (.start path) (Place.namesOf path).dropLast

/-- The place that a path leads to, with every name before the last one looked up. -/
def locate (d : Directory) (path : String) : Except FileError Place := do
  let p ← d.containing path
  match (Place.namesOf path).getLast? with
  | none => return p
  | some name =>
    if nameLimit < Source.byteLength name then throw .nameTooLong else return p.step name

/-- The content of a file. -/
def read (d : Directory) (path : String) : Except FileError String := do
  match d.entry (← d.locate path) with
  | .directory => throw .isDirectory
  | .nothing => throw .notFound
  | .file content => if endsWithSlash path then throw .notDirectory else return content

/-- Writes a file, which need not exist before. A path with a slash at its end is taken for one of a
directory before its last name is looked up. -/
def write (d : Directory) (path content : String) : Except FileError Directory := do
  let _ ← d.containing path
  if endsWithSlash path then throw .isDirectory
  let p ← d.locate path
  match d.entry p with
  | .directory => throw .isDirectory
  | _ =>
    return { d with files := (path, content) :: d.files.filter fun f => Place.ofPath f.1 != p }

/-- The directory as the surroundings of a run. -/
def host : Host (StateM Directory) where
  readInput := do return .ok (← get).input
  readFile path := do return (← get).read path
  writeFile path content := do
    match (← get).write path content with
    | .ok d => set d; return .ok ()
    | .error e => return .error e

/-- A run in the directory, and the directory after it. -/
def run (d : Directory) (arguments : List String) : Outcome × Directory :=
  (CommandLine.run host arguments).run d

end Directory

end ScriptMin.CommandLine
