import Mathlib.Data.List.Forall2
import ScriptMin.Proofs.Rename.Table

/-!
# Where names are read, and what they refer to

A `Place` is a scope as the code in it sees it: the declarations of the scope itself and of the
scopes around it. `resolve` looks a name up there, from the inside out, and tells how far out the
scope is that declares it, and which of the declarations of that scope it is. `places_renamed` shows
that the scopes of renamed items are those of the items, and that every name in them refers to the
same declaration as before.
-/

namespace ScriptMin.Rename

/-! ## Places -/

/-- A scope as it is seen from inside. -/
structure Place where
  kind : ScopeKind
  /-- The names that the scope declares, in the order of their first declarations, and then those of
  the scopes around it, from the inside out. -/
  tables : List (List String)
  /-- The names declared in this scope, once for each declaration. -/
  declares : List String
  /-- The names read in this scope and in none inside it. -/
  reads : List String
  /-- Whether code in this scope may read any name. -/
  readsAny : Bool

/-- The declarations of a scope. -/
def symbols (kind : ScopeKind) (items : List Item) : List String :=
  (declaredIn kind items).eraseDups

/-- The names that items read outside the scopes among them. -/
def directReads : List Item → List String
  | [] => []
  | .reads name :: rest => name :: directReads rest
  | _ :: rest => directReads rest

mutual

/-- The scopes in an item, each before those inside it. -/
def Item.places (around : List (List String)) : Item → List Place
  | .scope kind items =>
    let tables := symbols kind items :: around
    ⟨kind, tables, declaredIn kind items, directReads items, mayReadAny items⟩ :: placesIn tables items
  | _ => []

/-- The scopes among items. -/
def placesIn (around : List (List String)) : List Item → List Place
  | [] => []
  | item :: rest => item.places around ++ placesIn around rest

end

/-- What a name refers to: how many scopes out it is declared, and which declaration of that scope it
is. A name that is declared nowhere refers to nothing. -/
def resolve : List (List String) → String → Option (Nat × Nat)
  | [], _ => none
  | table :: around, name =>
    if name ∈ table then some (0, table.idxOf name)
    else (resolve around name).map fun (out, i) => (out + 1, i)

/-- The same scope before and after renaming. -/
structure Place.Agrees (before after : Place) : Prop where
  kind : after.kind = before.kind
  /-- As many scopes stand around it, with as many declarations each. -/
  sizes : after.tables.map List.length = before.tables.map List.length
  /-- Every declaration declares what it did. -/
  declares : List.Forall₂ (fun name name' =>
    resolve after.tables name' = resolve before.tables name) before.declares after.declares
  /-- Every read refers to the declaration it did, and one that refers to nothing is not renamed. -/
  reads : List.Forall₂ (fun name name' =>
    resolve after.tables name' = resolve before.tables name ∧
      (resolve before.tables name = none → name' = name)) before.reads after.reads
  readsAny : after.readsAny = before.readsAny
  /-- Where any name may be read, each refers to what it did. -/
  anyName : before.readsAny = true →
    ∀ name, resolve after.tables name = resolve before.tables name

/-! ## Renamed items -/

mutual

/-- An item with the names that an environment gives. -/
def Item.renamed (e : Environment) : Item → Item
  | .declares name how strict => .declares (e.declared name how strict) how strict
  | .reads name => .reads (e.read name)
  | .readsAny => .readsAny
  | .exports names => .exports names
  | .exporting on => .exporting on
  | .scope kind items => .scope kind (renamedItems (e.inside kind items) items)

/-- Items with the names that an environment gives. -/
def renamedItems (e : Environment) : List Item → List Item
  | [] => []
  | item :: rest => item.renamed e :: renamedItems e rest

end

theorem renamedItems_append (e : Environment) (items items' : List Item) :
    renamedItems e (items ++ items') = renamedItems e items ++ renamedItems e items' := by
  induction items with
  | nil => rfl
  | cons item rest ih => simp [renamedItems, ih]

mutual

theorem Item.mayReadAny_renamed (e : Environment) (item : Item) :
    (item.renamed e).mayReadAny = item.mayReadAny := by
  cases item with
  | scope kind items =>
    simp only [Item.renamed, Item.mayReadAny, mayReadAny_renamedItems _ items]
  | _ => rfl

theorem mayReadAny_renamedItems (e : Environment) (items : List Item) :
    mayReadAny (renamedItems e items) = mayReadAny items := by
  cases items with
  | nil => rfl
  | cons item rest =>
    simp only [renamedItems, mayReadAny, item.mayReadAny_renamed e, mayReadAny_renamedItems e rest]

end

theorem directReads_renamedItems (e : Environment) (items : List Item) :
    directReads (renamedItems e items) = (directReads items).map e.read := by
  induction items with
  | nil => rfl
  | cons item rest ih => cases item <;> simp [renamedItems, Item.renamed, directReads, ih]

theorem mem_openReads_of_mem_directReads {items : List Item} {x : String}
    (h : x ∈ directReads items) : x ∈ openReads items := by
  induction items with
  | nil => simp [directReads] at h
  | cons item rest ih =>
    cases item <;> simp_all [directReads, openReads, Item.openReads]
    exact h.imp id ih

/-! ## The declarations of a renamed scope -/

/-- The closure around a block is that around the scope that holds the block. -/
theorem find_closure_inside (e : Environment) (items : List Item) :
    (e.inside .block items).scopes.find? (·.1 == .closure) =
      e.scopes.find? (·.1 == .closure) := rfl

mutual

theorem Item.hoisted_renamed {e : Environment} {t : Table}
    (h : e.scopes.find? (·.1 == .closure) = some (.closure, t)) (item : Item) :
    (item.renamed e).hoisted = item.hoisted.map t.rename := by
  cases item with
  | declares name how strict =>
    simp only [Item.renamed, Item.hoisted, Environment.declared]
    split
    next => rw [h]; rfl
    next => rfl
  | scope kind items =>
    cases kind with
    | block => exact hoistedFrom_renamedItems (by rwa [find_closure_inside]) items
    | closure => rfl
  | _ => rfl

theorem hoistedFrom_renamedItems {e : Environment} {t : Table}
    (h : e.scopes.find? (·.1 == .closure) = some (.closure, t)) (items : List Item) :
    hoistedFrom (renamedItems e items) = (hoistedFrom items).map t.rename := by
  cases items with
  | nil => rfl
  | cons item rest =>
    simp only [renamedItems, hoistedFrom, List.map_append, item.hoisted_renamed h,
      hoistedFrom_renamedItems h rest]

end

/-- The declarations of a scope have the names of its table. -/
theorem declaredIn_renamedItems (reserved : List String) (kind : ScopeKind) (t : Table)
    (scopes : List (ScopeKind × Table)) (items : List Item) :
    declaredIn kind (renamedItems ⟨reserved, (kind, t) :: scopes⟩ items) =
      (declaredIn kind items).map t.rename := by
  induction items with
  | nil => rfl
  | cons item rest ih =>
    unfold declaredIn at ih ⊢
    simp only [renamedItems, List.flatMap_cons, List.map_append, ih]
    congr 1
    cases item with
    | declares name how strict =>
      cases kind with
      | closure =>
        simp only [Item.renamed, Item.declared, Environment.declared]
        cases how.isHoisted strict <;> rfl
      | block =>
        simp only [Item.renamed, Item.declared, Environment.declared]
        cases how.isHoisted strict <;> rfl
    | scope inner items =>
      cases inner with
      | closure => rfl
      | block =>
        cases kind with
        | closure => exact hoistedFrom_renamedItems (by rw [find_closure_inside]; rfl) items
        | block => rfl
    | _ => rfl

/-! ## The same declaration -/

/-- The tables of an environment rename the declarations of the scopes around a place to those of
the scopes around another. -/
def Follows : List (ScopeKind × Table) → List (List String) → List (List String) → Prop
  | [], [], [] => True
  | (_, t) :: scopes, names :: before, names' :: after =>
    ((∀ x, (t.lookup x).isSome ↔ x ∈ names) ∧
      (∀ x y z, t.lookup x = some z → t.lookup y = some z → x = y) ∧
      names' = names.map t.rename) ∧ Follows scopes before after
  | _, _, _ => False

/-- No scope that a read of a name passes has given its new name to a declaration. -/
def Clear (reserved : List String) : List (ScopeKind × Table) → String → Prop
  | [], _ => True
  | (_, t) :: scopes, x =>
    t.lookup x = none →
      (∀ y, t.lookup y ≠ some ((⟨reserved, scopes⟩ : Environment).read x)) ∧
        Clear reserved scopes x

theorem rename_of_lookup {t : Table} {x z : String} (h : t.lookup x = some z) :
    t.rename x = z := by
  rw [Table.rename, h, Option.getD_some]

/-- The place of a name in a list is that of its new name among the new names. -/
theorem idxOf_map {f : String → String} {l : List String} {x : String}
    (h : ∀ y ∈ l, f y = f x → y = x) : (l.map f).idxOf (f x) = l.idxOf x := by
  induction l with
  | nil => rfl
  | cons y l ih =>
    rw [List.map_cons, List.idxOf_cons, List.idxOf_cons,
      ih fun z hz => h z (List.mem_cons_of_mem _ hz)]
    by_cases hyx : y = x
    · rw [hyx, beq_self_eq_true, beq_self_eq_true]
    · have : f y ≠ f x := fun e => hyx (h y List.mem_cons_self e)
      rw [beq_false_of_ne hyx, beq_false_of_ne this]

theorem length_of_follows {scopes : List (ScopeKind × Table)} {before after : List (List String)}
    (h : Follows scopes before after) : after.map List.length = before.map List.length := by
  induction scopes generalizing before after with
  | nil =>
    match before, after, h with
    | [], [], _ => rfl
  | cons scope scopes ih =>
    match before, after, h with
    | names :: before, _ :: after, h =>
      obtain ⟨⟨-, -, rfl⟩, h⟩ := h
      rw [List.map_cons, List.map_cons, List.length_map, ih h]

/-- A read that no new name captures refers to the declaration it did, and one that refers to
nothing keeps its name. -/
theorem resolve_read {reserved : List String} {scopes : List (ScopeKind × Table)}
    {before after : List (List String)} {x : String} (h : Follows scopes before after)
    (hc : Clear reserved scopes x) :
    resolve after ((⟨reserved, scopes⟩ : Environment).read x) = resolve before x ∧
      (resolve before x = none → (⟨reserved, scopes⟩ : Environment).read x = x) := by
  induction scopes generalizing before after with
  | nil =>
    match before, after, h with
    | [], [], _ => exact ⟨rfl, fun _ => rfl⟩
  | cons scope scopes ih =>
    obtain ⟨kind, t⟩ := scope
    match before, after, h with
    | names :: before, _ :: after, h =>
      obtain ⟨⟨hsome, hinj, rfl⟩, h⟩ := h
      rw [Environment.read_cons]
      cases ht : t.lookup x with
      | some z =>
        -- The scope declares the name, and no other declaration has the new name.
        have hx : x ∈ names := (hsome x).1 (by simp [ht])
        have hz : z ∈ names.map t.rename := List.mem_map.2 ⟨x, hx, rename_of_lookup ht⟩
        have hi : (names.map t.rename).idxOf z = names.idxOf x := by
          rw [← rename_of_lookup ht]
          refine idxOf_map fun y hy e => ?_
          obtain ⟨w, hw⟩ := Option.isSome_iff_exists.1 ((hsome y).2 hy)
          rw [rename_of_lookup hw, rename_of_lookup ht] at e
          exact hinj y x z (e ▸ hw) ht
        simp [resolve, hx, hz, hi]
      | none =>
        -- The read passes the scope, before and after.
        obtain ⟨hne, hc⟩ := hc ht
        obtain ⟨hres, hnone⟩ := ih h hc
        have hx : x ∉ names := fun hx => by simpa [ht] using (hsome x).2 hx
        have hx' : (⟨reserved, scopes⟩ : Environment).read x ∉ names.map t.rename := by
          intro hmem
          obtain ⟨y, hy, e⟩ := List.mem_map.1 hmem
          obtain ⟨w, hw⟩ := Option.isSome_iff_exists.1 ((hsome y).2 hy)
          rw [rename_of_lookup hw] at e
          exact hne y (e ▸ hw)
        rw [Option.getD_none]
        simp only [resolve, if_neg hx, if_neg hx', hres, Option.map_eq_none_iff, true_and]
        exact hnone

/-- Where nothing is renamed, the declarations are the same. -/
theorem eq_of_follows_of_steady {reserved : List String} {scopes : List (ScopeKind × Table)}
    {before after : List (List String)} (h : Follows scopes before after)
    (hs : (⟨reserved, scopes⟩ : Environment).Steady) : after = before := by
  induction scopes generalizing before after with
  | nil =>
    match before, after, h with
    | [], [], _ => rfl
  | cons scope scopes ih =>
    obtain ⟨kind, t⟩ := scope
    match before, after, h with
    | names :: before, _ :: after, h =>
      obtain ⟨⟨hsome, -, rfl⟩, h⟩ := h
      rw [ih h fun s hmem => hs s (List.mem_cons_of_mem _ hmem)]
      congr 1
      refine (List.map_congr_left fun x hx => ?_).trans (List.map_id _)
      obtain ⟨z, hz⟩ := Option.isSome_iff_exists.1 ((hsome x).2 hx)
      rw [rename_of_lookup hz]
      exact hs _ List.mem_cons_self x z hz

/-! ## Going into a scope -/

section Inside

variable {reserved : List String} {scopes : List (ScopeKind × Table)} {kind : ScopeKind}
  {t : Table} {items : List Item}

/-- A table that fits gives different declarations different names. -/
theorem rename_injective (hf : t.Fits ⟨reserved, scopes⟩ kind items) {x y : String}
    (hx : x ∈ declaredIn kind items) (hy : y ∈ declaredIn kind items)
    (h : t.rename x = t.rename y) : x = y := by
  obtain ⟨z, hz⟩ := Option.isSome_iff_exists.1 ((hf.isSome_lookup x).2 hx)
  obtain ⟨w, hw⟩ := Option.isSome_iff_exists.1 ((hf.isSome_lookup y).2 hy)
  rw [rename_of_lookup hz, rename_of_lookup hw] at h
  exact hf.injective x y z hz (h ▸ hw)

theorem symbols_renamedItems (hf : t.Fits ⟨reserved, scopes⟩ kind items) :
    symbols kind (renamedItems ⟨reserved, (kind, t) :: scopes⟩ items) =
      (symbols kind items).map t.rename := by
  rw [symbols, symbols, declaredIn_renamedItems]
  exact eraseDups_map fun x hx y hy => rename_injective hf hx hy

/-- A scope whose table fits has its declarations renamed by it. -/
theorem follows_cons (hf : t.Fits ⟨reserved, scopes⟩ kind items)
    {before after : List (List String)} (h : Follows scopes before after) :
    Follows ((kind, t) :: scopes) (symbols kind items :: before)
      (symbols kind (renamedItems ⟨reserved, (kind, t) :: scopes⟩ items) :: after) := by
  refine ⟨⟨fun x => ?_, hf.injective, symbols_renamedItems hf⟩, h⟩
  rw [symbols, List.mem_eraseDups]
  exact hf.isSome_lookup x

/-- What is read inside a scope is not captured there either. -/
theorem clear_cons (hf : t.Fits ⟨reserved, scopes⟩ kind items)
    (hs : mayReadAny items = true → (⟨reserved, scopes⟩ : Environment).Steady)
    (hc : ∀ x ∈ inherited kind items, Clear reserved scopes x) :
    ∀ x ∈ openReads items, Clear reserved ((kind, t) :: scopes) x := by
  intro x hx hnone
  have hin : x ∈ inherited kind items := by
    refine mem_inherited.2 ⟨hx, fun hdecl => ?_⟩
    simpa [hnone] using (hf.isSome_lookup x).2 hdecl
  exact ⟨hf.avoids hs x hin, hc x hin⟩

theorem steady_cons (hf : t.Fits ⟨reserved, scopes⟩ kind items)
    (hs : mayReadAny items = true → (⟨reserved, scopes⟩ : Environment).Steady)
    (hany : mayReadAny items = true) :
    (⟨reserved, (kind, t) :: scopes⟩ : Environment).Steady := by
  intro s hmem
  obtain rfl | hmem := List.mem_cons.1 hmem
  · exact hf.steady hany
  · exact hs hany s hmem

/-- A scope that is renamed by its table agrees with what it was. -/
theorem agrees_cons (hf : t.Fits ⟨reserved, scopes⟩ kind items)
    (hs : mayReadAny items = true → (⟨reserved, scopes⟩ : Environment).Steady)
    (hc : ∀ x ∈ inherited kind items, Clear reserved scopes x)
    {before after : List (List String)} (h : Follows scopes before after) :
    let items' := renamedItems ⟨reserved, (kind, t) :: scopes⟩ items
    Place.Agrees
      ⟨kind, symbols kind items :: before, declaredIn kind items, directReads items,
        mayReadAny items⟩
      ⟨kind, symbols kind items' :: after, declaredIn kind items', directReads items',
        mayReadAny items'⟩ := by
  intro items'
  have hfollows := follows_cons hf h
  constructor
  case kind => rfl
  case sizes => exact length_of_follows hfollows
  case declares =>
    simp only [items', declaredIn_renamedItems]
    rw [List.forall₂_map_right_iff, List.forall₂_same]
    intro x hx
    obtain ⟨z, hz⟩ := Option.isSome_iff_exists.1 ((hf.isSome_lookup x).2 hx)
    have hclear : Clear reserved ((kind, t) :: scopes) x := fun hnone => by simp [hz] at hnone
    have hread := (resolve_read hfollows hclear).1
    rwa [Environment.read_cons, hz, Option.getD_some, ← rename_of_lookup hz] at hread
  case reads =>
    simp only [items', directReads_renamedItems]
    rw [List.forall₂_map_right_iff, List.forall₂_same]
    intro x hx
    exact resolve_read hfollows (clear_cons hf hs hc x (mem_openReads_of_mem_directReads hx))
  case readsAny => exact mayReadAny_renamedItems _ items
  case anyName =>
    intro hany name
    rw [eq_of_follows_of_steady hfollows (steady_cons hf hs hany)]

end Inside

/-! ## All scopes -/

mutual

theorem Item.places_renamed {reserved : List String} {scopes : List (ScopeKind × Table)}
    {before after : List (List String)} (h : Follows scopes before after) (item : Item)
    (hs : item.mayReadAny = true → (⟨reserved, scopes⟩ : Environment).Steady)
    (hc : ∀ x ∈ item.openReads, Clear reserved scopes x) :
    List.Forall₂ Place.Agrees (item.places before)
      ((item.renamed ⟨reserved, scopes⟩).places after) := by
  cases item with
  | scope kind items =>
    have hf := fits_inside ⟨reserved, scopes⟩ kind items
    exact .cons (agrees_cons hf hs hc h)
      (placesIn_renamedItems (follows_cons hf h) items (steady_cons hf hs) (clear_cons hf hs hc))
  | _ => exact .nil

/-- The scopes among renamed items agree with what they were, if nothing that is read there is
captured by the scopes around, and these keep their names where any name may be read. -/
theorem placesIn_renamedItems {reserved : List String} {scopes : List (ScopeKind × Table)}
    {before after : List (List String)} (h : Follows scopes before after) (items : List Item)
    (hs : mayReadAny items = true → (⟨reserved, scopes⟩ : Environment).Steady)
    (hc : ∀ x ∈ openReads items, Clear reserved scopes x) :
    List.Forall₂ Place.Agrees (placesIn before items)
      (placesIn after (renamedItems ⟨reserved, scopes⟩ items)) := by
  cases items with
  | nil => exact .nil
  | cons item rest =>
    simp only [mayReadAny, Bool.or_eq_true, openReads, List.mem_append] at hs hc
    exact List.rel_append
      (item.places_renamed h (fun hany => hs (.inl hany)) fun x hx => hc x (.inl hx))
      (placesIn_renamedItems h rest (fun hany => hs (.inr hany)) fun x hx => hc x (.inr hx))

end

/-- The scopes of a program: its own, and those inside it. -/
def placesOf (items : List Item) : List Place := (Item.scope .closure items).places []

/-- The scopes of a renamed program agree with what they were. -/
theorem placesOf_renamedItems (reserved : List String) (renames : Bool) (items : List Item) :
    List.Forall₂ Place.Agrees (placesOf items)
      (placesOf (renamedItems (.ofProgram reserved renames items) items)) := by
  obtain ⟨t, he, hf⟩ := fits_program reserved renames items
  have hs : mayReadAny items = true → (⟨reserved, []⟩ : Environment).Steady :=
    fun _ => by simp [Environment.Steady]
  have hc : ∀ x ∈ inherited .closure items, Clear reserved [] x := fun _ _ => trivial
  have h : Follows [] [] [] := trivial
  rw [he]
  exact .cons (agrees_cons hf hs hc h)
    (placesIn_renamedItems (follows_cons hf h) items (steady_cons hf hs) (clear_cons hf hs hc))

end ScriptMin.Rename
