import ScriptMin.Rename.Scope
import ScriptMin.Rename.Supply

/-!
# New names

Each scope gives its declarations new names, from the outermost scope in. A new name may not be one
that the scope takes from outside, as that is called there by then. A scope in which any name may be
read keeps its names, and so do the scopes around it.
-/

namespace ScriptMin.Rename

/-- The declarations of a scope with their new names. -/
abbrev Table := List (String × String)

/-- The scopes around a piece of code, the innermost first, and the names that are never given. -/
structure Environment where
  reserved : List String
  scopes : List (ScopeKind × Table)

namespace Environment

/-- The table of the scope that declares a name. -/
def declaring? (e : Environment) (name : String) : Option Table :=
  (e.scopes.map (·.2)).find? fun table => (table.lookup name).isSome

/-- What a name that is read is called now. A name that is declared nowhere stays. -/
def read (e : Environment) (name : String) : String :=
  ((e.declaring? name).bind fun table => table.lookup name).getD name

/-- What a declared name is called now. -/
def declared (e : Environment) (name : String) (how : Declares) (strict : Bool) : String :=
  let scope? :=
    if how.isHoisted strict then e.scopes.find? (·.1 == .closure) else e.scopes.head?
  (scope?.bind fun (_, table) => table.lookup name).getD name

end Environment

/-- Names that keep their spelling. -/
def keptTable (names : List String) : Table := names.map fun name => (name, name)

/-- New names for a scope. Those in `kept` stay as they are. -/
def freshTable (e : Environment) (kind : ScopeKind) (items : List Item) (kept : List String) :
    Table :=
  let names := (declaredIn kind items).eraseDups
  let (fixed, free) := names.partition kept.contains
  let taken := (inherited kind items).eraseDups
  keptTable fixed ++ free.zip (freshNames (taken.map e.read ++ fixed ++ e.reserved) free.length)

/-- The table of a scope. -/
def scopeTable (e : Environment) (kind : ScopeKind) (items : List Item) (kept : List String) :
    Table :=
  if mayReadAny items then keptTable (declaredIn kind items) else freshTable e kind items kept

/-- The environment inside a scope. -/
def Environment.inside (e : Environment) (kind : ScopeKind) (items : List Item) : Environment :=
  { e with scopes := (kind, scopeTable e kind items []) :: e.scopes }

/-- The environment of a program. Its own declarations keep their names if they are exported, and
all of them unless `renames` says otherwise. -/
def Environment.ofProgram (reserved : List String) (renames : Bool) (items : List Item) :
    Environment :=
  let outside : Environment := ⟨reserved, []⟩
  let table :=
    if renames then scopeTable outside .closure items (exportedNames items)
    else keptTable (declaredIn .closure items)
  ⟨reserved, [(.closure, table)]⟩

end ScriptMin.Rename
