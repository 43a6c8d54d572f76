import ScriptMin.Minify
import ScriptMin.Proofs.Rename.Reference

/-!
# What hoisted declarations write

A `var` in a block, or a function in one outside strict code, belongs to the closure around the
block. The blocks on the way there know of its name if something in them reads it. Then they give
its new name to no declaration of their own, so that the new name leads to the closure as well. A
block that declares nothing is not in the way, and neither is one in which any name may be read.
-/

namespace ScriptMin.Rename

/-! ## Ways out -/

/-- A scope and the scopes around it, from the inside out, each with what is in it. -/
abbrev Path := List (ScopeKind × List Item)

mutual

/-- The paths of the scopes in an item, each before those inside it. -/
def Item.paths (around : Path) : Item → List Path
  | .scope kind items => ((kind, items) :: around) :: pathsIn ((kind, items) :: around) items
  | _ => []

/-- The paths of the scopes among items. -/
def pathsIn (around : Path) : List Item → List Path
  | [] => []
  | item :: rest => item.paths around ++ pathsIn around rest

end

namespace Path

/-- The names that the scopes declare, in the order of their first declarations. -/
def tables (p : Path) : List (List String) := p.map fun (kind, items) => symbols kind items

/-- How far out the closure is that a hoisted declaration belongs to. -/
def closure (p : Path) : Nat := p.findIdx (·.1 == .closure)

/-- A name that is looked up here is found in the closure. -/
def FindsClosure (p : Path) (name : String) : Prop :=
  ∃ i, resolve p.tables name = some (p.closure, i)

/-- The blocks before the closure know of a name, or have no names to give. -/
def Knows : Path → String → Prop
  | (.block, items) :: around, name =>
    (declaredIn .block items = [] ∨ name ∈ openReads items ∨ mayReadAny items) ∧
      Knows around name
  | _, _ => True

end Path

/-- The names that items declare for the closure around them, outside the scopes among them. -/
def hoistedHere : List Item → List String
  | [] => []
  | .declares name how strict :: rest =>
    if how.isHoisted strict then name :: hoistedHere rest else hoistedHere rest
  | _ :: rest => hoistedHere rest

/-- The hoisted declarations in a scope before and after renaming write the same, if the blocks
before the closure know of their names. -/
structure Path.KeepsHoisted (before after : Path) : Prop where
  kinds : after.map (·.1) = before.map (·.1)
  hoisted : List.Forall₂ (fun name name' =>
    before.FindsClosure name → before.Knows name →
      resolve after.tables name' = resolve before.tables name)
    (before.head?.elim [] fun scope => hoistedHere scope.2)
    (after.head?.elim [] fun scope => hoistedHere scope.2)

/-! ## Names found in the closure -/

section Closure

variable {around : Path} {items : List Item} {x : String}

/-- A closure that a name is found in declares it. -/
theorem mem_of_findsClosure_closure (h : Path.FindsClosure ((.closure, items) :: around) x) :
    x ∈ declaredIn .closure items := by
  obtain ⟨i, hi⟩ := h
  rw [← List.mem_eraseDups]
  by_contra hnot
  simp [Path.tables, Path.closure, symbols, resolve, hnot, List.findIdx_cons] at hi

/-- A block before the closure does not declare the name, which is found further out. -/
theorem findsClosure_block (h : Path.FindsClosure ((.block, items) :: around) x) :
    x ∉ declaredIn .block items ∧ Path.FindsClosure around x := by
  have hblock : (ScopeKind.block == ScopeKind.closure) = false := rfl
  obtain ⟨i, hi⟩ := h
  have hnot : x ∉ (declaredIn .block items).eraseDups := by
    intro hmem
    simp [Path.tables, Path.closure, symbols, resolve, hmem, List.findIdx_cons, hblock] at hi
  refine ⟨fun hmem => hnot (List.mem_eraseDups.2 hmem), i, ?_⟩
  simpa [Path.tables, Path.closure, symbols, resolve, hnot, List.findIdx_cons, hblock] using hi

end Closure

/-! ## One scope -/

theorem hoistedHere_renamedItems (e : Environment) (items : List Item) :
    hoistedHere (renamedItems e items) =
      (hoistedHere items).map fun name => e.declared name .variable false := by
  induction items with
  | nil => rfl
  | cons item rest ih =>
    cases item with
    | declares name how strict =>
      cases hhow : how.isHoisted strict with
      | true =>
        have hdeclared : e.declared name how strict = e.declared name .variable false := by
          rw [Environment.declared, Environment.declared, hhow]
          rfl
        simp [renamedItems, Item.renamed, hoistedHere, hhow, ih, hdeclared]
      | false => simp [renamedItems, Item.renamed, hoistedHere, hhow, ih]
    | _ => simpa only [renamedItems, Item.renamed, hoistedHere] using ih

/-- What holds of an environment whose scopes stand along a path, before and after renaming. -/
structure Along (reserved : List String) (scopes : List (ScopeKind × Table))
    (before after : Path) : Prop where
  kinds : after.map (·.1) = before.map (·.1)
  follows : Follows scopes before.tables after.tables
  /-- A hoisted declaration has the name that a read of it would have. -/
  declared : ∀ x, before.FindsClosure x →
    (⟨reserved, scopes⟩ : Environment).declared x .variable false =
      (⟨reserved, scopes⟩ : Environment).read x
  /-- No block that knows of the name has given the new one. -/
  clear : ∀ x, before.FindsClosure x → before.Knows x → Clear reserved scopes x

theorem along_nil (reserved : List String) : Along reserved [] [] [] :=
  ⟨rfl, trivial, fun _ _ => rfl, fun _ _ _ => trivial⟩

section Inside

variable {reserved : List String} {scopes : List (ScopeKind × Table)} {before after : Path}
  {kind : ScopeKind} {t : Table} {items : List Item}

theorem along_cons (h : Along reserved scopes before after)
    (hf : t.Fits ⟨reserved, scopes⟩ kind items)
    (hs : mayReadAny items = true → (⟨reserved, scopes⟩ : Environment).Steady) :
    Along reserved ((kind, t) :: scopes) ((kind, items) :: before)
      ((kind, renamedItems ⟨reserved, (kind, t) :: scopes⟩ items) :: after) where
  kinds := by rw [List.map_cons, List.map_cons, h.kinds]
  follows := follows_cons hf h.follows
  declared x hx := by
    rw [Environment.read_cons]
    cases kind with
    | closure =>
      obtain ⟨z, hz⟩ :=
        Option.isSome_iff_exists.1 ((hf.isSome_lookup x).2 (mem_of_findsClosure_closure hx))
      simp [Environment.declared, Declares.isHoisted, hz]
    | block =>
      obtain ⟨hnot, hx⟩ := findsClosure_block hx
      have hnone : t.lookup x = none := by
        by_contra hne
        exact hnot ((hf.isSome_lookup x).1 (Option.isSome_iff_ne_none.2 hne))
      rw [hnone, Option.getD_none, ← h.declared x hx]
      rfl
  clear x hx hknows hnone := by
    cases kind with
    | closure =>
      -- The name is one of this scope, so no read of it passes.
      simpa [hnone] using (hf.isSome_lookup x).2 (mem_of_findsClosure_closure hx)
    | block =>
      obtain ⟨hnot, hx⟩ := findsClosure_block hx
      obtain ⟨hhere, hknows⟩ := hknows
      refine ⟨fun y hy => ?_, h.clear x hx hknows⟩
      obtain hempty | hread | hany := hhere
      · have hmem := (hf.isSome_lookup y).1 (by simp [hy])
        simp [hempty] at hmem
      · exact hf.avoids hs x (mem_inherited.2 ⟨hread, hnot⟩) y hy
      · -- Nothing is renamed here, so only the name itself could be in the way.
        rw [Environment.read_of_steady (hs hany)] at hy
        obtain rfl := hf.steady hany y x hy
        exact hnot ((hf.isSome_lookup x).1 (by simp [hy]))

theorem Along.keepsHoisted (h : Along reserved ((kind, t) :: scopes) ((kind, items) :: before)
      ((kind, renamedItems ⟨reserved, (kind, t) :: scopes⟩ items) :: after)) :
    Path.KeepsHoisted ((kind, items) :: before)
      ((kind, renamedItems ⟨reserved, (kind, t) :: scopes⟩ items) :: after) where
  kinds := h.kinds
  hoisted := by
    simp only [List.head?_cons, Option.elim_some, hoistedHere_renamedItems,
      List.forall₂_map_right_iff, List.forall₂_same]
    intro x _ hfinds hknows
    rw [h.declared x hfinds]
    exact (resolve_read h.follows (h.clear x hfinds hknows)).1

end Inside

/-! ## All scopes -/

mutual

theorem Item.paths_renamed {reserved : List String} {scopes : List (ScopeKind × Table)}
    {before after : Path} (h : Along reserved scopes before after) (item : Item)
    (hs : item.mayReadAny = true → (⟨reserved, scopes⟩ : Environment).Steady) :
    List.Forall₂ Path.KeepsHoisted (item.paths before)
      ((item.renamed ⟨reserved, scopes⟩).paths after) := by
  cases item with
  | scope kind items =>
    have hf := fits_inside ⟨reserved, scopes⟩ kind items
    have hinside := along_cons h hf hs
    exact .cons hinside.keepsHoisted (pathsIn_renamedItems hinside items (steady_cons hf hs))
  | _ => exact .nil

/-- Hoisted declarations in the scopes among renamed items write what they did, if the scopes around
keep their names where any name may be read. -/
theorem pathsIn_renamedItems {reserved : List String} {scopes : List (ScopeKind × Table)}
    {before after : Path} (h : Along reserved scopes before after) (items : List Item)
    (hs : mayReadAny items = true → (⟨reserved, scopes⟩ : Environment).Steady) :
    List.Forall₂ Path.KeepsHoisted (pathsIn before items)
      (pathsIn after (renamedItems ⟨reserved, scopes⟩ items)) := by
  cases items with
  | nil => exact .nil
  | cons item rest =>
    simp only [mayReadAny, Bool.or_eq_true] at hs
    exact List.rel_append (item.paths_renamed h fun hany => hs (.inl hany))
      (pathsIn_renamedItems h rest fun hany => hs (.inr hany))

end

end ScriptMin.Rename

namespace ScriptMin

open Rename

/-- The paths of the scopes of a program: its own, and those inside it. -/
def Program.paths (p : Program) : List Path := (Item.scope .closure p.items).paths []

/-- Renaming keeps what hoisted declarations write, as far as the blocks around them know of their
names. Where a name that is declared in a block, looked up from there, was found in the closure
around the block, its new name is found in the same place, if each block on the way reads the name
or may read any name, or declares nothing. -/
theorem Program.paths_rename (o : RenameOptions) (p : Program) :
    List.Forall₂ Path.KeepsHoisted p.paths (p.rename o).paths := by
  unfold Program.paths
  rw [Program.items_rename]
  obtain ⟨t, he, hf⟩ := fits_program o.reserved o.topLevel p.items
  have hs : mayReadAny p.items = true → (⟨o.reserved, []⟩ : Environment).Steady :=
    fun _ => by simp [Environment.Steady]
  rw [he]
  have hinside := along_cons (along_nil o.reserved) hf hs
  exact .cons hinside.keepsHoisted (pathsIn_renamedItems hinside p.items (steady_cons hf hs))

/-- A catch clause that reads the variable leaves it its new name. -/
example :
    (minify { Options.default with rename := some .default }
      "function f(){try{g()}catch(y){var x=1;x}return x}".toList).toOption =
    some "function f(){try{g()}catch(t){var e=1;e}return e}".toList := by decide +kernel

/-- One that does not read it takes the name. -/
example :
    (minify { Options.default with rename := some .default }
      "function f(){try{g()}catch(y){var x=1}return x}".toList).toOption =
    some "function f(){try{g()}catch(e){var e=1}return e}".toList := by decide +kernel

end ScriptMin
