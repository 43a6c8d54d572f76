import ScriptMin.Proofs.Rename.Reopen

/-!
# Renaming keeps what names refer to

The scopes of a program are read off its tree, and so are those of the program with short names.
Both trees have the same scopes, and every name in them refers to the same declaration.
-/

namespace ScriptMin

open Rename

/-- What a program does with names. -/
def Program.items (p : Program) : List Item := (openNode p.root .value p.strict).items

/-- The scopes of a program, with the names that are declared and read there. -/
def Program.places (p : Program) : List Place := placesOf p.items

namespace Rename

/-- The names of a program are closed in an environment that admits them. -/
theorem Environment.admits_ofProgram (reserved : List String) (renames : Bool)
    (items : List Item) : (Environment.ofProgram reserved renames items).Admits items := by
  obtain ⟨t, he, hf⟩ := fits_program reserved renames items
  rw [he]
  constructor
  case steady => exact steady_cons hf fun _ => by simp [Environment.Steady]
  case keepsEval =>
    intro x hx
    rw [Environment.read_cons, Environment.read_nil] at hx
    cases ht : t.lookup x with
    | none => simpa [ht] using hx
    | some z => exact hf.keepsEval x (by simpa [ht] using hx)

end Rename

/-- A renamed program does with the new names what the program did with its own. -/
theorem Program.items_rename (o : RenameOptions) (p : Program) :
    (p.rename o).items = renamedItems (.ofProgram o.reserved o.topLevel p.items) p.items :=
  reopens p.root _ .value p.strict (Environment.admits_ofProgram o.reserved o.topLevel p.items)

/-- Renaming never changes what a name refers to. The scopes are the same before and after; each
declaration and each read refers to the same declaration of the same scope, or a read to nothing
under its own name; and where any name may be read, all of them do. -/
theorem Program.places_rename (o : RenameOptions) (p : Program) :
    List.Forall₂ Place.Agrees p.places (p.rename o).places := by
  unfold Program.places
  rw [Program.items_rename]
  exact placesOf_renamedItems o.reserved o.topLevel p.items

end ScriptMin
