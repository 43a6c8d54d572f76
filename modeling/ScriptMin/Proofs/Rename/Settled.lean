import ScriptMin.Proofs.Rename.FirstFree
import ScriptMin.Proofs.Rename.Reference

/-!
# Names that have been given are given again

Where the scopes around it change no name, a scope that has been renamed gets the names it has: its
declarations stand in their order, it takes the same names from outside, and the supply takes the
first names that these leave free, which are those it took before. From the outermost scope in,
nothing changes: `renamedItems_ofProgram_renamedItems`.
-/

namespace ScriptMin.Rename

/-! ## What renamed items read and export -/

theorem undeclared_map {f : String → String} {declared declared' names : List String}
    (h : ∀ x ∈ names, f x ∈ declared' ↔ x ∈ declared) :
    undeclared declared' (names.map f) = (undeclared declared names).map f := by
  unfold undeclared
  rw [List.filter_map]
  congr 1
  refine List.filter_congr fun x hx => ?_
  simp only [Function.comp_apply, List.contains_eq_mem, h x hx]

section Inside

variable {reserved : List String} {scopes : List (ScopeKind × Table)} {kind : ScopeKind} {t : Table}
  {items : List Item}

/-- In a scope that is renamed, a name is declared now if it was before: a read that passed the
scope still does. -/
theorem mem_declaredIn_renamedItems (hf : t.Fits ⟨reserved, scopes⟩ kind items)
    (hs : mayReadAny items = true → (⟨reserved, scopes⟩ : Environment).Steady) {x : String}
    (hx : x ∈ openReads items) :
    (⟨reserved, (kind, t) :: scopes⟩ : Environment).read x ∈
        declaredIn kind (renamedItems ⟨reserved, (kind, t) :: scopes⟩ items) ↔
      x ∈ declaredIn kind items := by
  rw [declaredIn_renamedItems, Environment.read_cons, ← hf.isSome_lookup]
  cases ht : t.lookup x with
  | some z =>
    rw [Option.getD_some, Option.isSome_some, iff_true_right rfl]
    exact List.mem_map.2 ⟨x, (hf.isSome_lookup x).1 (by simp [ht]), rename_of_lookup ht⟩
  | none =>
    rw [Option.getD_none, Option.isSome_none, iff_false_right (by simp)]
    intro hmem
    obtain ⟨y, hy, e⟩ := List.mem_map.1 hmem
    obtain ⟨w, hw⟩ := Option.isSome_iff_exists.1 ((hf.isSome_lookup y).2 hy)
    have hin : x ∈ inherited kind items := by
      refine mem_inherited.2 ⟨hx, fun hdeclared => ?_⟩
      simpa [ht] using (hf.isSome_lookup x).2 hdeclared
    refine hf.avoids hs x hin y ?_
    rw [hw, ← e, rename_of_lookup hw]

/-- What passed a scope is called there what it is called outside. -/
theorem read_of_mem_inherited (hf : t.Fits ⟨reserved, scopes⟩ kind items) {x : String}
    (hx : x ∈ inherited kind items) :
    (⟨reserved, (kind, t) :: scopes⟩ : Environment).read x =
      (⟨reserved, scopes⟩ : Environment).read x := by
  have hnone : t.lookup x = none := by
    rw [← Option.not_isSome_iff_eq_none, hf.isSome_lookup]
    exact (mem_inherited.1 hx).2
  rw [Environment.read_cons, hnone, Option.getD_none]

/-- A scope that is renamed takes the names from outside that it took before, as they are called
there. -/
theorem inherited_renamedItems (hf : t.Fits ⟨reserved, scopes⟩ kind items)
    (hs : mayReadAny items = true → (⟨reserved, scopes⟩ : Environment).Steady)
    (hreads : openReads (renamedItems ⟨reserved, (kind, t) :: scopes⟩ items) =
      (openReads items).map (⟨reserved, (kind, t) :: scopes⟩ : Environment).read) :
    inherited kind (renamedItems ⟨reserved, (kind, t) :: scopes⟩ items) =
      (inherited kind items).map (⟨reserved, scopes⟩ : Environment).read := by
  rw [inherited, hreads, undeclared_map fun x hx => mem_declaredIn_renamedItems hf hs hx]
  exact List.map_congr_left fun x hx => read_of_mem_inherited hf hx

end Inside

mutual

theorem Item.openReads_renamed (e : Environment) (item : Item)
    (hs : item.mayReadAny = true → e.Steady) :
    (item.renamed e).openReads = item.openReads.map e.read := by
  cases item with
  | scope kind items =>
    have hf := fits_inside e kind items
    exact inherited_renamedItems hf hs
      (openReads_renamedItems (e.inside kind items) items (steady_cons hf hs))
  | _ => rfl

/-- Renamed items read the names that the environment gives, if it keeps the names where any may be
read. -/
theorem openReads_renamedItems (e : Environment) (items : List Item)
    (hs : mayReadAny items = true → e.Steady) :
    openReads (renamedItems e items) = (openReads items).map e.read := by
  cases items with
  | nil => rfl
  | cons item rest =>
    simp only [mayReadAny, Bool.or_eq_true] at hs
    simp only [renamedItems, openReads, List.map_append,
      item.openReads_renamed e fun hany => hs (.inl hany),
      openReads_renamedItems e rest fun hany => hs (.inr hany)]

end

mutual

theorem Item.exportLists_renamed (e : Environment) (item : Item) :
    (item.renamed e).exportLists = item.exportLists := by
  cases item with
  | scope kind items =>
    simp only [Item.renamed, Item.exportLists, exportLists_renamedItems _ items]
  | _ => rfl

theorem exportLists_renamedItems (e : Environment) (items : List Item) :
    exportLists (renamedItems e items) = exportLists items := by
  cases items with
  | nil => rfl
  | cons item rest =>
    simp only [renamedItems, exportLists, item.exportLists_renamed e,
      exportLists_renamedItems e rest]

end

mutual

theorem Item.holdsExport_renamed (e : Environment) (item : Item) :
    (item.renamed e).holdsExport = item.holdsExport := by
  cases item with
  | scope kind items =>
    simp only [Item.renamed, Item.holdsExport, holdsExport_renamedItems _ items]
  | _ => rfl

theorem holdsExport_renamedItems (e : Environment) (items : List Item) :
    holdsExport (renamedItems e items) = holdsExport items := by
  cases items with
  | nil => rfl
  | cons item rest =>
    simp only [renamedItems, holdsExport, item.holdsExport_renamed e,
      holdsExport_renamedItems e rest]

end

/-! ## Exports -/

/-- What an exported declaration of a program declares belongs to the program. -/
theorem exportedDeclarations_subset (isExporting : Bool) (items : List Item) :
    exportedDeclarations isExporting items ⊆ declaredIn .closure items := by
  induction items generalizing isExporting with
  | nil => exact List.Subset.refl _
  | cons item rest ih =>
    have hrest : ∀ on, exportedDeclarations on rest ⊆ declaredIn .closure (item :: rest) :=
      fun on name hname => List.mem_append_right _ (ih on hname)
    cases item with
    | declares name how strict =>
      cases isExporting with
      | true => exact List.cons_subset.2 ⟨List.mem_cons_self, hrest true⟩
      | false => exact hrest false
    | exporting on => exact hrest on
    | scope kind items => exact hrest _
    | _ => exact hrest isExporting

theorem exportedDeclarations_renamedItems (reserved : List String) (t : Table)
    (isExporting : Bool) (items : List Item) :
    exportedDeclarations isExporting (renamedItems ⟨reserved, [(.closure, t)]⟩ items) =
      (exportedDeclarations isExporting items).map t.rename := by
  induction items generalizing isExporting with
  | nil => rfl
  | cons item rest ih =>
    cases item with
    | declares name how strict =>
      have hname : (⟨reserved, [(.closure, t)]⟩ : Environment).declared name how strict =
          t.rename name := by
        unfold Environment.declared
        cases how.isHoisted strict <;> rfl
      cases isExporting with
      | true => simp [renamedItems, Item.renamed, exportedDeclarations, ih, hname]
      | false => simp [renamedItems, Item.renamed, exportedDeclarations, ih]
    | scope kind items =>
      simp only [renamedItems, Item.renamed, exportedDeclarations, ih, holdsExport_renamedItems]
    | _ => simp only [renamedItems, Item.renamed, exportedDeclarations, ih]

/-! ## Tables -/

/-- No name has another in the table. -/
def Table.Keeps (t : Table) : Prop := ∀ x z, t.lookup x = some z → z = x

theorem keeps_keptTable (names : List String) : (keptTable names).Keeps := by
  intro x z hx
  rw [lookup_keptTable, Option.ite_none_right_eq_some] at hx
  exact (Option.some_inj.1 hx.2).symm

/-- The names that a scope does not give. -/
def avoided (e : Environment) (kind : ScopeKind) (items : List Item) (kept : List String) :
    List String :=
  (inherited kind items).eraseDups.map e.read ++ (symbols kind items).filter kept.contains ++
    e.reserved

theorem mem_avoided {e : Environment} {kind : ScopeKind} {items : List Item} {kept : List String}
    {name : String} :
    name ∈ avoided e kind items kept ↔ name ∈ (inherited kind items).map e.read ∨
      (name ∈ symbols kind items ∧ kept.contains name = true) ∨ name ∈ e.reserved := by
  simp only [avoided, List.mem_append, List.mem_filter, List.mem_map, List.mem_eraseDups, or_assoc]

/-- The declarations that a scope gives names to. -/
def renamable (kind : ScopeKind) (items : List Item) (kept : List String) : List String :=
  (symbols kind items).filter (!kept.contains ·)

theorem freshTable_eq (e : Environment) (kind : ScopeKind) (items : List Item)
    (kept : List String) :
    freshTable e kind items kept = keptTable ((symbols kind items).filter kept.contains) ++
      (renamable kind items kept).zip
        (freshNames (avoided e kind items kept) (renamable kind items kept).length) := by
  unfold freshTable
  simp only [List.partition_eq_filter_filter]
  rfl

theorem lookup_zip_self {names : List String} {x z : String}
    (h : (names.zip names).lookup x = some z) : z = x := by
  induction names with
  | nil => cases h
  | cons name names ih =>
    rw [List.zip_cons_cons, List.lookup_cons] at h
    cases hx : x == name with
    | true =>
      rw [hx] at h
      exact (Option.some_inj.1 h).symm.trans (beq_iff_eq.1 hx).symm
    | false =>
      rw [hx] at h
      exact ih h

/-- A scope keeps its names if they are those that the supply has for it. -/
theorem keeps_freshTable {e : Environment} {kind : ScopeKind} {items : List Item}
    {kept : List String}
    (h : freshNames (avoided e kind items kept) (renamable kind items kept).length =
      renamable kind items kept) :
    (freshTable e kind items kept).Keeps := by
  intro x z hx
  rw [freshTable_eq, h, List.lookup_append] at hx
  rcases Option.or_eq_some_iff.1 hx with hfixed | ⟨-, hfree⟩
  · exact keeps_keptTable _ x z hfixed
  · exact lookup_zip_self hfree

/-- Different names in a table beside as many others get these in their order. -/
theorem map_rename_zip {names names' : List String} (hnodup : names.Nodup)
    (hlength : names.length = names'.length) :
    names.map (Table.rename (names.zip names')) = names' := by
  induction names generalizing names' with
  | nil => exact (List.length_eq_zero_iff.1 hlength.symm).symm
  | cons name names ih =>
    match names', hlength with
    | name' :: names', hlength =>
      obtain ⟨hname, hnodup⟩ := List.nodup_cons.1 hnodup
      have hfirst : Table.rename ((name, name') :: names.zip names') name = name' := by
        rw [Table.rename, List.lookup_cons_self, Option.getD_some]
      have hrest : ∀ x ∈ names, Table.rename ((name, name') :: names.zip names') x =
          Table.rename (names.zip names') x := by
        intro x hx
        have hne : x ≠ name := fun e => hname (e ▸ hx)
        simp only [Table.rename, List.lookup_cons, beq_false_of_ne hne]
      rw [List.zip_cons_cons, List.map_cons, hfirst, List.map_congr_left hrest,
        ih hnodup (by simpa using hlength)]

/-- The declarations that get new names get those of the supply, in their order. -/
theorem map_rename_renamable (e : Environment) (kind : ScopeKind) (items : List Item)
    (kept : List String) :
    (renamable kind items kept).map (freshTable e kind items kept).rename =
      freshNames (avoided e kind items kept) (renamable kind items kept).length := by
  have hnodup : (renamable kind items kept).Nodup := (nodup_eraseDups _).filter _
  rw [freshTable_eq]
  refine Eq.trans (List.map_congr_left fun x hx => ?_)
    (map_rename_zip hnodup (length_freshNames _ _).symm)
  have hfixed : x ∉ (symbols kind items).filter kept.contains := by
    intro hmem
    have hfree := (List.mem_filter.1 hx).2
    rw [(List.mem_filter.1 hmem).2] at hfree
    cases hfree
  rw [Table.rename, List.lookup_append, lookup_keptTable, if_neg hfixed, Option.none_or,
    Table.rename]

/-! ## A scope that has been renamed -/

section Again

variable {e e' : Environment} {kind : ScopeKind} {items : List Item} {kept : List String}

/-- The scope with the names that it is given in the environment. -/
def rescoped (e : Environment) (kind : ScopeKind) (items : List Item) (kept : List String) :
    List Item :=
  renamedItems ⟨e.reserved, (kind, freshTable e kind items kept) :: e.scopes⟩ items

/-- The declarations of the scope now are those that it keeps and the names of the supply. -/
theorem mem_symbols_rescoped (hf : (freshTable e kind items kept).Fits e kind items)
    {name : String} :
    name ∈ symbols kind (rescoped e kind items kept) ↔
      name ∈ (symbols kind items).filter kept.contains ∨
        name ∈ freshNames (avoided e kind items kept) (renamable kind items kept).length := by
  have hkept : ∀ x ∈ (symbols kind items).filter kept.contains,
      (freshTable e kind items kept).rename x = x := by
    intro x hx
    obtain ⟨hx, hk⟩ := List.mem_filter.1 hx
    exact rename_of_lookup (lookup_freshTable_kept (List.contains_iff_mem.1 hk)
      (List.mem_eraseDups.1 hx))
  rw [← map_rename_renamable, rescoped, symbols_renamedItems hf]
  simp only [List.mem_map]
  constructor
  · rintro ⟨x, hx, rfl⟩
    by_cases hk : kept.contains x = true
    · have hmem := List.mem_filter.2 ⟨hx, hk⟩
      exact .inl ((hkept x hmem).symm ▸ hmem)
    · exact .inr ⟨x, List.mem_filter.2 ⟨hx, by simpa using hk⟩, rfl⟩
  · rintro (hmem | ⟨x, hx, rfl⟩)
    · exact ⟨name, List.mem_of_mem_filter hmem, hkept name hmem⟩
    · exact ⟨x, List.mem_of_mem_filter hx, rfl⟩

/-- The names that can still be renamed are those of the supply, but for the ones that are kept by
now. -/
theorem renamable_rescoped (hf : (freshTable e kind items kept).Fits e kind items) :
    renamable kind (rescoped e kind items kept) kept =
      (freshNames (avoided e kind items kept) (renamable kind items kept).length).filter
        (!kept.contains ·) := by
  rw [← map_rename_renamable, renamable, rescoped, symbols_renamedItems hf, renamable,
    List.filter_map, List.filter_map, List.filter_filter]
  congr 1
  refine List.filter_congr fun x hx => ?_
  cases hk : kept.contains x with
  | false => simp
  | true =>
    have hlookup := lookup_freshTable_kept (e := e) (List.contains_iff_mem.1 hk)
      (List.mem_eraseDups.1 hx)
    simp only [Function.comp_apply, rename_of_lookup hlookup, hk]
    rfl

/-- The names to be avoided are those from before, and the names of the supply that are kept by
now. -/
theorem mem_avoided_rescoped (hf : (freshTable e kind items kept).Fits e kind items)
    (hs : mayReadAny items = true → e.Steady) (he' : e'.Steady)
    (hreserved : e'.reserved = e.reserved) {name : String} :
    name ∈ avoided e' kind (rescoped e kind items kept) kept ↔
      name ∈ avoided e kind items kept ∨
        name ∈ freshNames (avoided e kind items kept) (renamable kind items kept).length ∧
          kept.contains name = true := by
  have hinherited := inherited_renamedItems hf hs
    (openReads_renamedItems _ items (steady_cons hf hs))
  have htaken : (inherited kind (rescoped e kind items kept)).map e'.read =
      (inherited kind items).map e.read := by
    rw [rescoped, hinherited, List.map_congr_left fun x _ => Environment.read_of_steady he' x,
      List.map_id']
  have hfixed : name ∈ (symbols kind items).filter kept.contains ↔
      name ∈ symbols kind items ∧ kept.contains name = true := List.mem_filter
  rw [mem_avoided, mem_avoided, htaken, hreserved, mem_symbols_rescoped hf, hfixed]
  simp only [or_and_right, and_assoc, and_self, or_assoc]
  rw [or_comm (a := name ∈ e.reserved)]

/-- A scope that has been renamed keeps its names where the scopes around it keep theirs. -/
theorem keeps_scopeTable_renamedItems (hf : (scopeTable e kind items kept).Fits e kind items)
    (hs : mayReadAny items = true → e.Steady) (he' : e'.Steady)
    (hreserved : e'.reserved = e.reserved) :
    (scopeTable e' kind (renamedItems
      ⟨e.reserved, (kind, scopeTable e kind items kept) :: e.scopes⟩ items) kept).Keeps := by
  cases hany : mayReadAny items with
  | true =>
    rw [scopeTable, mayReadAny_renamedItems, hany, if_pos rfl]
    exact keeps_keptTable _
  | false =>
    have htable : scopeTable e kind items kept = freshTable e kind items kept := by
      rw [scopeTable, hany]
      rfl
    rw [htable] at hf ⊢
    rw [scopeTable, mayReadAny_renamedItems, hany]
    refine keeps_freshTable ?_
    change freshNames (avoided e' kind (rescoped e kind items kept) kept)
      (renamable kind (rescoped e kind items kept) kept).length =
        renamable kind (rescoped e kind items kept) kept
    rw [renamable_rescoped hf]
    exact freshNames_filter _ fun name => mem_avoided_rescoped hf hs he' hreserved

end Again

/-! ## Everything that has been renamed -/

theorem Environment.declared_of_steady {e : Environment} (h : e.Steady) (x : String)
    (how : Declares) (strict : Bool) : e.declared x how strict = x := by
  have hscope : ∀ scope ∈ e.scopes, (scope.2.lookup x).getD x = x := by
    intro scope hmem
    cases hx : scope.2.lookup x with
    | none => rfl
    | some z => exact h scope hmem x z hx
  have hsome : ∀ o : Option (ScopeKind × Table), (∀ scope ∈ o, scope ∈ e.scopes) →
      ((o.bind fun scope => scope.2.lookup x).getD x) = x := by
    intro o ho
    cases o with
    | none => rfl
    | some scope => exact hscope scope (ho scope rfl)
  unfold Environment.declared
  refine hsome _ fun scope hmem => ?_
  split at hmem
  · exact List.mem_of_find?_eq_some hmem
  · exact List.mem_of_mem_head? hmem

theorem steady_of_keeps {reserved : List String} {scopes : List (ScopeKind × Table)}
    {kind : ScopeKind} {t : Table} (ht : t.Keeps)
    (hs : (⟨reserved, scopes⟩ : Environment).Steady) :
    (⟨reserved, (kind, t) :: scopes⟩ : Environment).Steady := by
  intro scope hmem
  rcases List.mem_cons.1 hmem with rfl | hmem
  · exact ht
  · exact hs scope hmem

mutual

theorem Item.renamed_renamed {e e' : Environment} (item : Item)
    (hs : item.mayReadAny = true → e.Steady) (he' : e'.Steady)
    (hreserved : e'.reserved = e.reserved) : (item.renamed e).renamed e' = item.renamed e := by
  cases item with
  | declares name how strict =>
    simp only [Item.renamed, Environment.declared_of_steady he']
  | reads name => simp only [Item.renamed, Environment.read_of_steady he']
  | scope kind items =>
    have hf := fits_inside e kind items
    have hkeeps := keeps_scopeTable_renamedItems hf hs he' hreserved
    have hsteady : (e'.inside kind (renamedItems (e.inside kind items) items)).Steady :=
      steady_of_keeps hkeeps he'
    exact congrArg (Item.scope kind)
      (renamedItems_renamedItems items (steady_cons hf hs) hsteady hreserved)
  | _ => rfl

/-- Items that have been renamed keep their names where the scopes around them keep theirs. -/
theorem renamedItems_renamedItems {e e' : Environment} (items : List Item)
    (hs : mayReadAny items = true → e.Steady) (he' : e'.Steady)
    (hreserved : e'.reserved = e.reserved) :
    renamedItems e' (renamedItems e items) = renamedItems e items := by
  cases items with
  | nil => rfl
  | cons item rest =>
    simp only [mayReadAny, Bool.or_eq_true] at hs
    simp only [renamedItems, item.renamed_renamed (fun hany => hs (.inl hany)) he' hreserved,
      renamedItems_renamedItems rest (fun hany => hs (.inr hany)) he' hreserved]

end

theorem rename_keptTable (names : List String) (x : String) : (keptTable names).rename x = x := by
  rw [Table.rename, lookup_keptTable]
  split <;> rfl

/-- A declaration that is kept is called what it was. -/
theorem rename_scopeTable_kept {e : Environment} {kind : ScopeKind} {items : List Item}
    {kept : List String} {x : String} (hk : x ∈ kept) (hx : x ∈ declaredIn kind items) :
    (scopeTable e kind items kept).rename x = x := by
  unfold scopeTable
  split
  · exact rename_keptTable _ x
  · exact rename_of_lookup (lookup_freshTable_kept hk hx)

/-- A program exports under its new names what it exported: those names are kept. -/
theorem exportedNames_renamedItems (e : Environment) (items : List Item) :
    let t := scopeTable e .closure items (exportedNames items)
    exportedNames (renamedItems ⟨e.reserved, [(.closure, t)]⟩ items) = exportedNames items := by
  intro t
  have hkept : ∀ x ∈ exportedDeclarations false items, t.rename x = x := fun x hx =>
    rename_scopeTable_kept (List.mem_append_left _ hx) (exportedDeclarations_subset false items hx)
  rw [exportedNames, exportedDeclarations_renamedItems, exportLists_renamedItems,
    List.map_congr_left hkept, List.map_id', exportedNames]

/-- What a program does with names that have been given stays as it is when names are given again.
-/
theorem renamedItems_ofProgram_renamedItems (reserved : List String) (renames : Bool)
    (items : List Item) :
    let items' := renamedItems (.ofProgram reserved renames items) items
    renamedItems (.ofProgram reserved renames items') items' = items' := by
  intro items'
  have hnone : (⟨reserved, []⟩ : Environment).Steady := by simp [Environment.Steady]
  have hs := (Environment.admits_ofProgram reserved renames items).steady
  have hkeeps : (Environment.ofProgram reserved renames items').Steady := by
    refine steady_of_keeps ?_ hnone
    cases renames with
    | false => exact keeps_keptTable _
    | true =>
      have hf : (scopeTable ⟨reserved, []⟩ .closure items (exportedNames items)).Fits
          ⟨reserved, []⟩ .closure items := by
        refine fits_scopeTable fun x hx _ => ?_
        rw [Environment.read_nil]
        exact (mem_inherited.1 hx).2
      have hexports : exportedNames items' = exportedNames items :=
        exportedNames_renamedItems ⟨reserved, []⟩ items
      rw [if_pos rfl, hexports]
      exact keeps_scopeTable_renamedItems hf (fun _ => hnone) hnone rfl
  exact renamedItems_renamedItems items hs hkeeps rfl

end ScriptMin.Rename
