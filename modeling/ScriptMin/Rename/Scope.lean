/-!
# Scopes

A piece of code is seen here as the list of what it does with names, in the order of the source: it
declares and reads them, and it opens scopes, which do the same inside. From this follow the names
that belong to a scope and the names that it takes from outside.
-/

namespace ScriptMin.Rename

/-- A scope of a function or of the program, or of a block. -/
inductive ScopeKind where
  | closure
  | block
deriving DecidableEq, Repr

/-- How a name is declared: by `var`, as a function, or in any other way. -/
inductive Declares where
  | variable
  | function
  | lexical
deriving DecidableEq, Repr

/-- Whether a declaration belongs to the closure around it, and not to the block. A function does so
outside strict code. -/
def Declares.isHoisted (d : Declares) (strict : Bool) : Bool :=
  match d with
  | .variable => true
  | .function => !strict
  | .lexical => false

/-- What code does with names. -/
inductive Item where
  | declares (name : String) (how : Declares) (strict : Bool)
  | reads (name : String)
  /-- Reads names that are not known before it runs. -/
  | readsAny
  /-- Exports names by a list. -/
  | exports (names : List String)
  /-- An exported declaration starts or ends. -/
  | exporting (on : Bool)
  | scope (kind : ScopeKind) (items : List Item)

mutual

/-- The declarations in an item of a block that belong to the closure around the block. -/
def Item.hoisted : Item → List String
  | .declares name how strict => if how.isHoisted strict then [name] else []
  | .scope .block items => hoistedFrom items
  | _ => []

/-- The declarations in a block that belong to the closure around it. -/
def hoistedFrom : List Item → List String
  | [] => []
  | item :: rest => item.hoisted ++ hoistedFrom rest

end

/-- The declarations in an item that belong to the scope of this kind that holds it. -/
def Item.declared (kind : ScopeKind) : Item → List String
  | .declares name how strict =>
    if kind == .closure || !how.isHoisted strict then [name] else []
  | .scope .block items => if kind == .closure then hoistedFrom items else []
  | _ => []

/-- The declarations that belong to a scope of this kind with these items. -/
def declaredIn (kind : ScopeKind) (items : List Item) : List String :=
  items.flatMap (·.declared kind)

/-- The names that a scope has not declared. -/
def undeclared (declared names : List String) : List String :=
  names.filter (!declared.contains ·)

mutual

/-- The names that an item reads, but for those that belong to a scope inside it. -/
def Item.openReads : Item → List String
  | .reads name => [name]
  | .scope kind items => undeclared (declaredIn kind items) (openReads items)
  | _ => []

/-- The names that items read, but for those that belong to a scope among them. -/
def openReads : List Item → List String
  | [] => []
  | item :: rest => item.openReads ++ openReads rest

end

/-- The names that a scope takes from outside. -/
def inherited (kind : ScopeKind) (items : List Item) : List String :=
  undeclared (declaredIn kind items) (openReads items)

mutual

/-- Whether some code in an item may read any name. -/
def Item.mayReadAny : Item → Bool
  | .readsAny => true
  | .scope _ items => mayReadAny items
  | _ => false

/-- Whether some code among the items may read any name. -/
def mayReadAny : List Item → Bool
  | [] => false
  | item :: rest => item.mayReadAny || mayReadAny rest

end

/-! ## Exports -/

mutual

/-- The names in the lists of exports in an item. -/
def Item.exportLists : Item → List String
  | .exports names => names
  | .scope _ items => exportLists items
  | _ => []

/-- The names in all lists of exports. -/
def exportLists : List Item → List String
  | [] => []
  | item :: rest => item.exportLists ++ exportLists rest

end

mutual

/-- Whether an exported declaration stands in an item. -/
def Item.holdsExport : Item → Bool
  | .exporting _ => true
  | .scope _ items => holdsExport items
  | _ => false

/-- Whether an exported declaration stands among the items. -/
def holdsExport : List Item → Bool
  | [] => false
  | item :: rest => item.holdsExport || holdsExport rest

end

/-- The names that exported declarations of a program declare. One declaration inside another ends
both. -/
def exportedDeclarations (isExporting : Bool) : List Item → List String
  | [] => []
  | .declares name _ _ :: rest =>
    if isExporting then name :: exportedDeclarations isExporting rest
    else exportedDeclarations isExporting rest
  | .exporting on :: rest => exportedDeclarations on rest
  | .scope _ items :: rest => exportedDeclarations (isExporting && !holdsExport items) rest
  | _ :: rest => exportedDeclarations isExporting rest

/-- The names that a program exports. -/
def exportedNames (items : List Item) : List String :=
  exportedDeclarations false items ++ exportLists items

end ScriptMin.Rename
