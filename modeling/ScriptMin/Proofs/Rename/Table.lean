import ScriptMin.Proofs.Rename.Supply
import ScriptMin.Rename.Environment

/-!
# The tables of the scopes

A table of new names fits a scope if it has each declaration of the scope once, gives different
names to different declarations and none that a name read from outside has by then, and changes
nothing where any name may be read. `fits_scopeTable` shows it of the tables that scopes are given,
`fits_inside` and `fits_program` of the two kinds of scope that a program has.
-/

namespace ScriptMin.Rename

/-! ## First occurrences -/

theorem nodup_eraseDups (l : List String) : l.eraseDups.Nodup := by
  induction h : l.length using Nat.strongRecOn generalizing l with
  | ind n ih =>
    cases l with
    | nil => exact List.nodup_nil
    | cons a l =>
      have hlt : (l.filter fun b => !b == a).length < n := by
        have := List.length_filter_le (fun b => !b == a) l
        rw [List.length_cons] at h
        omega
      rw [List.eraseDups_cons, List.nodup_cons]
      exact ⟨by simp, ih _ hlt _ rfl⟩

/-- Renaming different names differently keeps which occurrences are the first. -/
theorem eraseDups_map {f : String → String} {l : List String}
    (h : ∀ x ∈ l, ∀ y ∈ l, f x = f y → x = y) : (l.map f).eraseDups = l.eraseDups.map f := by
  induction hn : l.length using Nat.strongRecOn generalizing l with
  | ind n ih =>
    cases l with
    | nil => rfl
    | cons a l =>
      have hlt : (l.filter fun b => !b == a).length < n := by
        have := List.length_filter_le (fun b => !b == a) l
        rw [List.length_cons] at hn
        omega
      have hfilter : (l.map f).filter (fun b => !b == f a) = (l.filter fun b => !b == a).map f := by
        rw [List.filter_map]
        congr 1
        refine List.filter_congr fun x hx => ?_
        have := h x (List.mem_cons_of_mem _ hx) a List.mem_cons_self
        by_cases hxa : x = a
        · simp [hxa]
        · have : f x ≠ f a := fun e => hxa (this e)
          simp [hxa, this]
      rw [List.map_cons, List.eraseDups_cons, List.eraseDups_cons, List.map_cons, hfilter]
      rw [ih _ hlt (fun x hx y hy => h x ?_ y ?_) rfl]
      · exact List.mem_cons_of_mem _ (List.mem_of_mem_filter hx)
      · exact List.mem_cons_of_mem _ (List.mem_of_mem_filter hy)

/-! ## Lookups -/

theorem lookup_keptTable (names : List String) (x : String) :
    (keptTable names).lookup x = if x ∈ names then some x else none := by
  induction names with
  | nil => rfl
  | cons name rest ih =>
    rw [keptTable, List.map_cons, List.lookup_cons]
    by_cases h : x = name
    · simp [h]
    · rw [beq_false_of_ne h]
      rw [keptTable] at ih
      simp [ih, h]

theorem mem_of_lookup {t : Table} {x z : String} (h : t.lookup x = some z) : (x, z) ∈ t := by
  obtain ⟨front, back, rfl, -⟩ := List.lookup_eq_some_iff.1 h
  simp

theorem isSome_lookup_iff (t : Table) (x : String) :
    (t.lookup x).isSome ↔ x ∈ t.map (·.1) := by
  rw [List.lookup_isSome_iff]
  simp only [List.mem_map, beq_iff_eq]
  constructor
  · rintro ⟨p, hp, rfl⟩
    exact ⟨p, hp, rfl⟩
  · rintro ⟨p, hp, rfl⟩
    exact ⟨p, hp, rfl⟩

/-- A table without repetition among its new names gives one new name to one name only. -/
theorem lookup_injective {t : Table} (h : (t.map (·.2)).Nodup) {x y z : String}
    (hx : t.lookup x = some z) (hy : t.lookup y = some z) : x = y := by
  have := List.inj_on_of_nodup_map h (mem_of_lookup hx) (mem_of_lookup hy) rfl
  exact congrArg Prod.fst this

/-! ## Environments -/

/-- What a name is called where no inner scope declares it. -/
def Table.rename (t : Table) (x : String) : String := (t.lookup x).getD x

namespace Environment

/-- Every name is called what it was. -/
def Steady (e : Environment) : Prop :=
  ∀ scope ∈ e.scopes, ∀ x z, scope.2.lookup x = some z → z = x

theorem read_nil (reserved : List String) (x : String) :
    (⟨reserved, []⟩ : Environment).read x = x := rfl

theorem read_cons (reserved : List String) (kind : ScopeKind) (t : Table)
    (scopes : List (ScopeKind × Table)) (x : String) :
    (⟨reserved, (kind, t) :: scopes⟩ : Environment).read x =
      (t.lookup x).getD ((⟨reserved, scopes⟩ : Environment).read x) := by
  unfold read declaring?
  cases h : t.lookup x with
  | none => simp [h]
  | some z => simp [h]

theorem read_of_steady {e : Environment} (h : e.Steady) (x : String) : e.read x = x := by
  obtain ⟨reserved, scopes⟩ := e
  induction scopes with
  | nil => rfl
  | cons scope scopes ih =>
    obtain ⟨kind, t⟩ := scope
    rw [read_cons, ih fun s hs => h s (List.mem_cons_of_mem _ hs)]
    cases ht : t.lookup x with
    | none => rfl
    | some z => exact h _ List.mem_cons_self x z ht

end Environment

/-! ## Tables that fit -/

/-- A table that can stand for a scope with these items inside an environment. -/
structure Table.Fits (t : Table) (e : Environment) (kind : ScopeKind) (items : List Item) :
    Prop where
  isSome_lookup : ∀ x, (t.lookup x).isSome ↔ x ∈ declaredIn kind items
  injective : ∀ x y z, t.lookup x = some z → t.lookup y = some z → x = y
  /-- What is read from outside keeps its meaning. -/
  avoids : (mayReadAny items = true → e.Steady) →
    ∀ x ∈ inherited kind items, ∀ y, t.lookup y ≠ some (e.read x)
  /-- Where any name may be read, none changes. -/
  steady : mayReadAny items = true → ∀ x z, t.lookup x = some z → z = x
  /-- No other name comes to be a call of the evaluator. -/
  keepsEval : ∀ x, t.lookup x = some "eval" → x = "eval"

theorem mem_inherited {kind : ScopeKind} {items : List Item} {x : String} :
    x ∈ inherited kind items ↔ x ∈ openReads items ∧ x ∉ declaredIn kind items := by
  simp [inherited, undeclared]

/-- Where nothing is renamed, a scope around which nothing is renamed has a table that fits. -/
theorem fits_keptTable {e : Environment} {kind : ScopeKind} {items : List Item}
    (h : (mayReadAny items = true → e.Steady) → e.Steady) :
    (keptTable (declaredIn kind items)).Fits e kind items where
  isSome_lookup x := by
    rw [lookup_keptTable]
    split <;> simp [*]
  injective x y z hx hy := by
    rw [lookup_keptTable, Option.ite_none_right_eq_some] at hx hy
    exact (Option.some_inj.1 hx.2).trans (Option.some_inj.1 hy.2).symm
  avoids hs x hx y hy := by
    rw [Environment.read_of_steady (h hs), lookup_keptTable, Option.ite_none_right_eq_some] at hy
    obtain ⟨hmem, e⟩ := hy
    exact (mem_inherited.1 hx).2 (Option.some_inj.1 e ▸ hmem)
  steady _ x z hx := by
    rw [lookup_keptTable, Option.ite_none_right_eq_some] at hx
    exact (Option.some_inj.1 hx.2).symm
  keepsEval x hx := by
    rw [lookup_keptTable, Option.ite_none_right_eq_some] at hx
    exact Option.some_inj.1 hx.2

theorem isReserved_eval : isReserved "eval" = true := by decide +kernel

/-- A table of new names has the declarations that keep theirs and then the others. -/
theorem freshTable_keys (e : Environment) (kind : ScopeKind) (items : List Item)
    (kept : List String) :
    (freshTable e kind items kept).map (·.1) =
      ((declaredIn kind items).eraseDups.filter kept.contains) ++
        (declaredIn kind items).eraseDups.filter (!kept.contains ·) := by
  unfold freshTable keptTable
  simp only [List.partition_eq_filter_filter, List.map_append, List.map_map]
  congr 1
  · exact List.map_id _
  · exact List.map_fst_zip (Nat.le_of_eq (length_freshNames _ _).symm)

/-- The new names are those that are kept and then fresh ones. -/
theorem freshTable_values (e : Environment) (kind : ScopeKind) (items : List Item)
    (kept : List String) :
    ∃ count, (freshTable e kind items kept).map (·.2) =
      (declaredIn kind items).eraseDups.filter kept.contains ++
        freshNames ((inherited kind items).eraseDups.map e.read ++
          (declaredIn kind items).eraseDups.filter kept.contains ++ e.reserved) count := by
  refine ⟨((declaredIn kind items).eraseDups.filter (!kept.contains ·)).length, ?_⟩
  unfold freshTable keptTable
  simp only [List.partition_eq_filter_filter, List.map_append, List.map_map]
  congr 1
  · exact List.map_id _
  · exact List.map_snd_zip (Nat.le_of_eq (length_freshNames _ _))

/-- A declaration that is kept has its own name. -/
theorem lookup_freshTable_kept {e : Environment} {kind : ScopeKind} {items : List Item}
    {kept : List String} {x : String} (hk : x ∈ kept) (hx : x ∈ declaredIn kind items) :
    (freshTable e kind items kept).lookup x = some x := by
  unfold freshTable
  simp only [List.partition_eq_filter_filter, List.lookup_append, lookup_keptTable]
  rw [if_pos]
  · rfl
  · simp [hk, hx]

/-- Where code reads no unknown names, a table of fresh names fits, if the names that are kept are
not those of anything that is read from outside. -/
theorem fits_freshTable {e : Environment} {kind : ScopeKind} {items : List Item}
    {kept : List String} (hany : mayReadAny items = false)
    (hkept : ∀ x ∈ inherited kind items, e.read x ∈ kept → e.read x ∉ declaredIn kind items) :
    (freshTable e kind items kept).Fits e kind items := by
  obtain ⟨count, hvalues⟩ := freshTable_values e kind items kept
  have value_cases : ∀ x z, (freshTable e kind items kept).lookup x = some z →
      (z ∈ kept ∧ z ∈ declaredIn kind items) ∨
        z ∈ freshNames ((inherited kind items).eraseDups.map e.read ++
          (declaredIn kind items).eraseDups.filter kept.contains ++ e.reserved) count := by
    intro x z h
    have hz : z ∈ (freshTable e kind items kept).map (·.2) :=
      List.mem_map_of_mem (f := (·.2)) (mem_of_lookup h)
    rw [hvalues, List.mem_append, List.mem_filter, List.mem_eraseDups, List.contains_iff_mem] at hz
    exact hz.imp And.symm id
  have hnodup : ((freshTable e kind items kept).map (·.2)).Nodup := by
    rw [hvalues, List.nodup_append]
    refine ⟨(nodup_eraseDups _).filter _, freshNames_nodup _ _, fun x hx y hy e => ?_⟩
    refine not_mem_avoid_of_mem_freshNames hy ?_
    exact List.mem_append_left _ (List.mem_append_right _ (e ▸ hx))
  constructor
  case isSome_lookup =>
    intro x
    rw [isSome_lookup_iff, freshTable_keys, List.mem_append, List.mem_filter, List.mem_filter,
      List.mem_eraseDups, ← and_or_left]
    cases h : kept.contains x <;> simp
  case injective => exact fun x y z hx hy => lookup_injective hnodup hx hy
  case avoids =>
    intro _ x hx y hy
    obtain ⟨hk, hdecl⟩ | hfresh := value_cases y _ hy
    · exact hkept x hx hk hdecl
    · refine not_mem_avoid_of_mem_freshNames hfresh ?_
      refine List.mem_append_left _ (List.mem_append_left _ ?_)
      exact List.mem_map_of_mem (List.mem_eraseDups.2 hx)
  case steady => simp [hany]
  case keepsEval =>
    intro x hx
    obtain ⟨hk, hdecl⟩ | hfresh := value_cases x _ hx
    · exact lookup_injective hnodup hx (lookup_freshTable_kept hk hdecl)
    · have := isReserved_of_mem_freshNames hfresh
      rw [isReserved_eval] at this
      contradiction

/-- The tables of a scope fit, if nothing that it keeps is the name of something read from outside.
-/
theorem fits_scopeTable {e : Environment} {kind : ScopeKind} {items : List Item}
    {kept : List String}
    (hkept : ∀ x ∈ inherited kind items, e.read x ∈ kept → e.read x ∉ declaredIn kind items) :
    (scopeTable e kind items kept).Fits e kind items := by
  unfold scopeTable
  split
  next hany => exact fits_keptTable fun h => h hany
  next hany => exact fits_freshTable (by simpa using hany) hkept

/-- The table that a scope gets inside an environment. -/
theorem fits_inside (e : Environment) (kind : ScopeKind) (items : List Item) :
    (scopeTable e kind items []).Fits e kind items :=
  fits_scopeTable (by simp)

/-- The environment of a program has one table, which fits. -/
theorem fits_program (reserved : List String) (renames : Bool) (items : List Item) :
    ∃ t : Table, Environment.ofProgram reserved renames items = ⟨reserved, [(.closure, t)]⟩ ∧
      t.Fits ⟨reserved, []⟩ .closure items := by
  refine ⟨_, rfl, ?_⟩
  split
  · refine fits_scopeTable fun x hx _ => ?_
    rw [Environment.read_nil]
    exact (mem_inherited.1 hx).2
  · exact fits_keptTable fun _ => by simp [Environment.Steady]

end ScriptMin.Rename
