import ScriptMin.Proofs.Grammar.Program
import ScriptMin.Proofs.Rename.Exports
import ScriptMin.Proofs.Rename.Settled

/-!
# What renaming leaves as it is

Renaming a program respells its tree: it changes names of variables, functions and classes and
nothing else. A name that changes becomes one of the supply, which can be a name in any code. Names
at the top of a program stay unless they may change, and so do those that are exported.
-/

namespace ScriptMin

open Source

namespace Rename

/-! ## New names -/

theorem isIdentifierName_concat {name : List Char} {c : Char} (h : isIdentifierName name)
    (hc : isIdentifierPart c) : isIdentifierName (name ++ [c]) := by
  cases name with
  | nil => cases h
  | cons first rest =>
    rw [isIdentifierName, Bool.and_eq_true_iff] at h
    simp [isIdentifierName, h.1, h.2, hc]

theorem startAlphabet_starts : startAlphabet.all isIdentifierStart = true := by decide

theorem restAlphabet_continues : restAlphabet.all isIdentifierPart = true := by decide

theorem isIdentifierName_nameFrom {fuel k : Nat} (h : k < fuel) :
    isIdentifierName (nameFrom fuel k) := by
  have hstart := List.all_eq_true.1 startAlphabet_starts
  have hrest := List.all_eq_true.1 restAlphabet_continues
  induction fuel generalizing k with
  | zero => omega
  | succ fuel ih =>
    have hlength : startAlphabet.length = 54 := rfl
    have hlength' : restAlphabet.length = 64 := rfl
    unfold nameFrom
    rw [hlength, hlength']
    split
    next hk =>
      rw [List.getD_eq_getElem _ _ (by omega)]
      simp [isIdentifierName, hstart _ (List.getElem_mem _)]
    next hk =>
      refine isIdentifierName_concat (ih (by omega)) ?_
      rw [List.getD_eq_getElem _ _ (by omega)]
      exact hrest _ (List.getElem_mem _)

/-- A name that renaming may give, where some names are reserved. -/
structure NewName (reserved : List String) (name : String) : Prop where
  identifier : isIdentifierName name.toList
  /-- It is no word of the language. -/
  notWord : Word.ofString? name = none
  /-- It means nothing else where it is bound. -/
  notReserved : name ∉ reservedWords
  notAvoided : name ∉ reserved

theorem newName_of_mem_freshNames {avoid reserved : List String} {count : Nat} {name : String}
    (h : name ∈ freshNames avoid count) (hreserved : reserved ⊆ avoid) :
    NewName reserved name := by
  obtain ⟨⟨k, -, rfl⟩, hname, havoid⟩ := mem_freshNamesFrom h
  rw [isReserved, Bool.or_eq_false_iff, Option.isSome_eq_false_iff,
    Option.isNone_iff_eq_none] at hname
  refine ⟨?_, hname.1, ?_, fun hmem => havoid (hreserved hmem)⟩
  · rw [nameAt, String.toList_ofList]
    exact isIdentifierName_nameFrom (Nat.lt_succ_self k)
  · simpa using hname.2

/-- A name stays as it is or becomes a new one. -/
def Spelling (reserved : List String) (name name' : String) : Prop :=
  name' = name ∨ NewName reserved name'

theorem spelling_scopeTable (e : Environment) (kind : ScopeKind) (items : List Item)
    (kept : List String) {x z : String} (h : (scopeTable e kind items kept).lookup x = some z) :
    Spelling e.reserved x z := by
  unfold scopeTable at h
  split at h
  · exact .inl (keeps_keptTable _ x z h)
  · rw [freshTable_eq, List.lookup_append] at h
    rcases Option.or_eq_some_iff.1 h with hfixed | ⟨-, hfree⟩
    · exact .inl (keeps_keptTable _ x z hfixed)
    · have hfresh := (List.of_mem_zip (mem_of_lookup hfree)).2
      exact .inr (newName_of_mem_freshNames hfresh fun _ hmem => List.mem_append_right _ hmem)

theorem respells_spelling (reserved : List String) : Respells reserved (Spelling reserved) where
  refl _ := .inl rfl
  table e kind items kept he _ _ h := he ▸ spelling_scopeTable e kind items kept h

end Rename

/-! ## Names at the top -/

namespace Program

open Rename

/-- The names that belong to the scope of the program, once for each declaration. -/
def topNames (p : Program) : List String := declaredIn .closure p.items

/-- The names that a program exports: by a list that shows names of its own, or by a declaration at
its top with no other exported declaration in it. -/
inductive Exports (p : Program) : String → Prop
  | listed {n : Node} {names : List (ModuleName Node)} {name : ModuleName Node}
      (mem_nodes : n ∈ p.root.nodes) (shape_eq : n.shape = .exportList (.listed names) none)
      (mem_names : name ∈ names) : Exports p name.target
  | declared {n declaration : Node} {isDefault : Bool} {name : String} (mem_body : n ∈ p.body)
      (shape_eq : n.shape = .exportDeclaration declaration isDefault)
      (alone : ∀ c ∈ declaration.nodes, ∀ inner isDefault,
        c.shape ≠ .exportDeclaration inner isDefault)
      (mem_names : name ∈ declaration.declaredNames) : Exports p name

theorem items_program {p : Program} {statements : List Node}
    (h : p.root.shape = .program statements) :
    p.items = statements.flatMap fun c => (openNode c .value p.strict).items := by
  rw [items, items_openNode, h]
  simp [openShape, Shape.map, plainShape, Shape.children, inRole, List.flatMap_map]

/-- What a declaration at the top exports is seen to be exported. -/
theorem mem_exportedDeclarations {p : Program} (hp : p.root.WellFormed) {n declaration : Node}
    {isDefault : Bool} (hn : n ∈ p.body)
    (hshape : n.shape = .exportDeclaration declaration isDefault)
    (halone : ∀ c ∈ declaration.nodes, ∀ inner isDefault,
      c.shape ≠ .exportDeclaration inner isDefault) :
    declaration.declaredNames ⊆ exportedDeclarations false p.items := by
  obtain ⟨statements, hroot, hn⟩ : ∃ statements, p.root.shape = .program statements ∧
      n ∈ statements := by
    unfold body at hn
    split at hn
    · exact ⟨_, ‹_›, hn⟩
    · cases hn
  have hwell : n.WellFormed := hp.child (by rw [hroot]; exact hn)
  have hchild : declaration ∈ n.shape.children := by
    rw [hshape]
    exact List.mem_singleton_self _
  obtain ⟨before, after, rfl⟩ := List.append_of_mem hn
  let items := fun c => (openNode c .value p.strict).items
  have hdeclares : Role.Declares .value declaration := by
    have haccepted := (hwell.fits (p := (.exportable, declaration)) (by
      rw [hshape]
      exact List.mem_singleton_self _)).accepted
    obtain ⟨span, shape⟩ := declaration
    cases shape <;> first | cases haccepted; done | exact .inr rfl
  have hitems : p.items = before.flatMap items ++
      .exporting true :: (items declaration ++ .exporting false :: after.flatMap items) := by
    have hn : items n = .exporting true :: (items declaration ++ [.exporting false]) := by
      unfold items
      rw [items_openNode, hshape]
      simp [openShape, Shape.map, plainShape, Shape.children, inRole]
    rw [items_program hroot, List.flatMap_append, List.flatMap_cons]
    change before.flatMap items ++ (items n ++ after.flatMap items) = _
    rw [hn, List.cons_append, List.append_assoc, List.singleton_append]
  have hholds : holdsExport (items declaration) = false := by
    rw [← holdsExport_marks, marked]
    exact Node.holdsExport_exportMarks halone
  intro name hname
  rw [hitems]
  refine subset_exportedDeclarations _ _ _ ?_
  rw [exportedDeclarations_append hholds]
  exact List.mem_append_left _
    (declaredNames_subset_declaresHere (hwell.child hchild) hdeclares p.strict hname)

theorem Exports.mem_exportedNames {p : Program} (hp : p.root.WellFormed) {name : String}
    (h : p.Exports name) : name ∈ exportedNames p.items := by
  cases h with
  | @listed n names name hn hshape hname =>
    refine List.mem_append_right _ ?_
    rw [← exportLists_marks, Program.items, marked]
    exact List.mem_flatMap.2
      ⟨_, Node.exports_mem_exportMarks hp hn hshape, List.mem_map_of_mem hname⟩
  | declared hn hshape halone hname =>
    exact List.mem_append_left _ (mem_exportedDeclarations hp hn hshape halone hname)

/-- Renaming changes how variables, functions and classes are spelled and nothing else: labels,
keys, names of members, literals and what a module imports and shows stay, and a shorthand whose
variable has another name is written out. A name stays or becomes a new one; without `topLevel`
those at the top of the program stay, and with it those that the program exports. -/
theorem respelled_rename (o : RenameOptions) {p : Program} (hp : p.root.WellFormed) :
    p.root.RespelledAs (Spelling o.reserved) (p.rename o).root ∧
      List.Forall₂ (fun name name' => o.topLevel = false ∨ p.Exports name → name' = name)
        p.topNames (p.rename o).topNames := by
  let table :=
    if o.topLevel then scopeTable ⟨o.reserved, []⟩ .closure p.items (exportedNames p.items)
    else keptTable (declaredIn .closure p.items)
  constructor
  · have hgives : (Environment.ofProgram o.reserved o.topLevel p.items).Gives o.reserved
        (Spelling o.reserved) := by
      refine ⟨rfl, fun scope hscope x z hx => ?_⟩
      obtain rfl := List.mem_singleton.1 hscope
      split at hx
      · exact spelling_scopeTable ⟨o.reserved, []⟩ .closure p.items _ hx
      · exact .inl (keeps_keptTable _ x z hx)
    exact respelled_closed (respells_spelling o.reserved) p.root _ hgives .value p.strict
  · have hnames : (p.rename o).topNames = p.topNames.map table.rename := by
      rw [topNames, items_rename]
      exact declaredIn_renamedItems o.reserved .closure table [] p.items
    rw [hnames, List.forall₂_map_right_iff, List.forall₂_same]
    intro name hname hkept
    unfold table
    split
    next htop =>
      have hexports := hkept.resolve_left (by simp [htop])
      exact rename_scopeTable_kept (hexports.mem_exportedNames hp) hname
    next => exact rename_keptTable _ name

/-- A module whose exported variable stays while the other names at the top change. -/
theorem respelled_rename_exports :
    ∃ p, parse .module "export var ab=1;var cd=ab;function f(g){return{g}}".toList = .ok p ∧
      p.root.WellFormed ∧ p.topNames = ["ab", "cd", "f"] ∧
      (p.rename ⟨true, ["e"]⟩).topNames = ["ab", "t", "n"] ∧
      p.root.RespelledAs (Spelling ["e"]) (p.rename ⟨true, ["e"]⟩).root := by
  have hrun : (parse .module "export var ab=1;var cd=ab;function f(g){return{g}}".toList
      ).toOption.any (fun p => p.topNames == ["ab", "cd", "f"] &&
        (p.rename ⟨true, ["e"]⟩).topNames == ["ab", "t", "n"]) = true := by decide +kernel
  obtain ⟨p, hparse, hcheck⟩ := exists_of_parse _ hrun
  obtain ⟨htop, htop'⟩ := Bool.and_eq_true_iff.1 hcheck
  have hwell := wellFormed_of_parse hparse
  exact ⟨p, hparse, hwell, beq_iff_eq.1 htop, beq_iff_eq.1 htop',
    (respelled_rename ⟨true, ["e"]⟩ hwell).1⟩

end Program

end ScriptMin
