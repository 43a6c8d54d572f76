import ScriptMin.Proofs.Rename.Supply

/-!
# The supply takes the first free names

The numbers of the names that `freshNames` takes are the first that are free, in order, and that
determines them: the names depend on which names are to be avoided and on nothing else. If some of
the names taken are avoided as well, what is taken in their stead is the rest of them.
-/

namespace ScriptMin.Rename

/-- The numbers are the first from `k` on, in order, whose names are not excluded. -/
inductive FirstFree (excluded : String → Prop) : Nat → List Nat → Prop
  | nil (k : Nat) : FirstFree excluded k []
  | cons {k j : Nat} {rest : List Nat} (le : k ≤ j)
      (passed : ∀ i, k ≤ i → i < j → excluded (nameAt i)) (free : ¬excluded (nameAt j))
      (rest_free : FirstFree excluded (j + 1) rest) : FirstFree excluded k (j :: rest)

namespace FirstFree

variable {excluded excluded' : String → Prop} {k : Nat} {ks ks' : List Nat}

/-- As many numbers as are asked for are determined. -/
theorem unique (h : FirstFree excluded k ks) (h' : FirstFree excluded k ks')
    (hlength : ks.length = ks'.length) : ks = ks' := by
  induction h generalizing ks' with
  | nil k => exact (List.length_eq_zero_iff.1 hlength.symm).symm
  | @cons k j rest le passed free _ ih =>
    cases h' with
    | nil k => simp at hlength
    | @cons _ j' rest' le' passed' free' h' =>
      -- Of two different numbers the smaller one would have been passed by the other search.
      have hj : j = j' := by
        by_contra hne
        rcases Nat.lt_or_gt_of_ne hne with hlt | hlt
        · exact free (passed' j le hlt)
        · exact free' (passed j' le' hlt)
      subst hj
      rw [ih h' (by simpa using hlength)]

/-- A search may start earlier, where everything is excluded. -/
theorem earlier {k' : Nat} (hpassed : ∀ i, k ≤ i → i < k' → excluded (nameAt i)) (hle : k ≤ k')
    (h : FirstFree excluded k' ks) : FirstFree excluded k ks := by
  cases h with
  | nil => exact .nil k
  | cons le passed free h =>
    refine .cons (by omega) (fun i hi hij => ?_) free h
    by_cases hik : i < k'
    · exact hpassed i hi hik
    · exact passed i (by omega) hij

/-- Without some of them, the numbers are the first whose names are not excluded, now that those of
the others are. -/
theorem filter (h : FirstFree excluded k ks) (keeps : Nat → Bool)
    (hiff : ∀ i, k ≤ i →
      (excluded' (nameAt i) ↔ excluded (nameAt i) ∨ i ∈ ks ∧ keeps i = false)) :
    FirstFree excluded' k (ks.filter keeps) := by
  induction h with
  | nil k => exact .nil k
  | @cons k j rest le passed free hrest ih =>
    have hpassed : ∀ i, k ≤ i → i < j → excluded' (nameAt i) :=
      fun i hi hij => (hiff i hi).2 (.inl (passed i hi hij))
    have hrest' : FirstFree excluded' (j + 1) (rest.filter keeps) := by
      refine ih fun i hi => ?_
      rw [hiff i (by omega), List.mem_cons, or_iff_right (by omega : i ≠ j)]
    cases hkeeps : keeps j with
    | true =>
      rw [List.filter_cons_of_pos hkeeps]
      refine .cons le hpassed (fun hex => ?_) hrest'
      rcases (hiff j le).1 hex with hex | ⟨-, hdrops⟩
      · exact free hex
      · simp [hkeeps] at hdrops
    | false =>
      rw [List.filter_cons_of_neg (by simp [hkeeps])]
      refine hrest'.earlier (fun i hi hij => ?_) (by omega)
      rcases Nat.lt_succ_iff_lt_or_eq.1 hij with hij | rfl
      · exact hpassed i hi hij
      · exact (hiff i hi).2 (.inr ⟨List.mem_cons_self, hkeeps⟩)

end FirstFree

theorem nextFresh_le (excluded : String → Bool) (fuel k : Nat) :
    nextFresh excluded fuel k ≤ k + fuel := by
  induction fuel generalizing k with
  | zero => exact Nat.le_refl k
  | succ fuel ih =>
    unfold nextFresh
    split
    · have := ih (k + 1)
      omega
    · omega

/-- The search passes only names that are excluded. -/
theorem excluded_of_lt_nextFresh {excluded : String → Bool} {fuel k i : Nat} (hk : k ≤ i)
    (hi : i < nextFresh excluded fuel k) : excluded (nameAt i) = true := by
  induction fuel generalizing k with
  | zero =>
    unfold nextFresh at hi
    omega
  | succ fuel ih =>
    unfold nextFresh at hi
    split at hi
    next hex =>
      rcases Nat.eq_or_lt_of_le hk with rfl | hlt
      · exact hex
      · exact ih hlt hi
    next => omega

/-- The names that are never taken while the names in a list are to be avoided. -/
def Excluded (avoid : List String) (name : String) : Prop :=
  isReserved name = true ∨ name ∈ avoid

/-- How many names are never taken, at the most. -/
def excludedCount (avoid : List String) : Nat :=
  Word.table.length + reservedWords.length + avoid.length

/-- The first number from `k` on whose name is free. -/
def nextFree (avoid : List String) (k : Nat) : Nat :=
  nextFresh (fun name => isReserved name || avoid.contains name) (excludedCount avoid) k

theorem freshNamesFrom_succ (avoid : List String) (k count : Nat) :
    freshNamesFrom avoid k (count + 1) =
      nameAt (nextFree avoid k) :: freshNamesFrom avoid (nextFree avoid k + 1) count := rfl

theorem le_nextFree (avoid : List String) (k : Nat) : k ≤ nextFree avoid k := le_nextFresh _ _ _

theorem nextFree_le (avoid : List String) (k : Nat) : nextFree avoid k ≤ k + excludedCount avoid :=
  nextFresh_le _ _ _

theorem excluded_of_lt_nextFree {avoid : List String} {k i : Nat} (hk : k ≤ i)
    (hi : i < nextFree avoid k) : Excluded avoid (nameAt i) := by
  have hexcluded := excluded_of_lt_nextFresh hk hi
  rwa [Bool.or_eq_true, List.contains_iff_mem] at hexcluded

theorem not_excluded_nextFree (avoid : List String) (k : Nat) :
    ¬Excluded avoid (nameAt (nextFree avoid k)) := by
  have hmem : nameAt (nextFree avoid k) ∈ freshNamesFrom avoid k 1 := by
    rw [freshNamesFrom_succ]
    exact List.mem_cons_self
  obtain ⟨-, hreserved, havoid⟩ := mem_freshNamesFrom hmem
  rintro (hname | hname)
  · rw [hreserved] at hname
    contradiction
  · exact havoid hname

/-- The names taken from number `k` on are the first that are free. -/
theorem freshNamesFrom_firstFree (avoid : List String) (k count : Nat) :
    ∃ ks, FirstFree (Excluded avoid) k ks ∧ freshNamesFrom avoid k count = ks.map nameAt := by
  induction count generalizing k with
  | zero => exact ⟨[], .nil k, rfl⟩
  | succ count ih =>
    obtain ⟨ks, hks, hnames⟩ := ih (nextFree avoid k + 1)
    refine ⟨nextFree avoid k :: ks, .cons (le_nextFree avoid k)
      (fun i => excluded_of_lt_nextFree) (not_excluded_nextFree avoid k) hks, ?_⟩
    rw [freshNamesFrom_succ, hnames, List.map_cons]

/-- What is taken when some of the names taken before are to be avoided as well: the rest of them,
in their order. -/
theorem freshNames_filter {avoid avoid' : List String} {count : Nat} (drops : String → Bool)
    (hiff : ∀ name,
      name ∈ avoid' ↔ name ∈ avoid ∨ name ∈ freshNames avoid count ∧ drops name = true) :
    freshNames avoid' ((freshNames avoid count).filter (!drops ·)).length =
      (freshNames avoid count).filter (!drops ·) := by
  obtain ⟨ks, hks, hnames⟩ := freshNamesFrom_firstFree avoid 0 count
  obtain ⟨ks', hks', hnames'⟩ :=
    freshNamesFrom_firstFree avoid' 0 ((freshNames avoid count).filter (!drops ·)).length
  change freshNames avoid count = _ at hnames
  change freshNames avoid' _ = _ at hnames'
  have hfiltered : (freshNames avoid count).filter (!drops ·) =
      (ks.filter fun i => !drops (nameAt i)).map nameAt := by
    rw [hnames, List.filter_map]
    rfl
  have hrest : FirstFree (Excluded avoid') 0 (ks.filter fun i => !drops (nameAt i)) := by
    refine hks.filter _ fun i _ => ?_
    have hmem : nameAt i ∈ freshNames avoid count ↔ i ∈ ks := by
      rw [hnames, List.mem_map]
      exact ⟨fun ⟨j, hj, e⟩ => nameAt_injective e ▸ hj, fun hi => ⟨i, hi, rfl⟩⟩
    rw [Excluded, hiff, hmem, ← or_assoc, Bool.not_eq_false']
    rfl
  have hlength : ks'.length = (ks.filter fun i => !drops (nameAt i)).length := by
    calc ks'.length = (ks'.map nameAt).length := by rw [List.length_map]
      _ = ((freshNames avoid count).filter (!drops ·)).length := by
          rw [← hnames', length_freshNames]
      _ = (ks.filter fun i => !drops (nameAt i)).length := by rw [hfiltered, List.length_map]
  rw [hnames', hfiltered, hks'.unique hrest hlength]

end ScriptMin.Rename
