import Mathlib.Data.List.GetD
import Mathlib.Data.List.Nodup
import Mathlib.Data.List.Perm.Subperm
import ScriptMin.Rename.Supply

/-!
# The supply never repeats a name

Two numbers never have the same name, so a search that may pass over as many numbers as there are
excluded names always ends at one that is not excluded. The names that `freshNames` takes are
therefore distinct, and none of them is reserved or to be avoided.
-/

namespace ScriptMin.Rename

/-! ## Numbers and names -/

theorem startAlphabet_nodup : startAlphabet.Nodup := by decide +kernel

theorem restAlphabet_nodup : restAlphabet.Nodup := by decide +kernel

/-- Within a list without repetition, different places hold different elements. -/
theorem getD_injective {l : List Char} (h : l.Nodup) {i j : Nat} (hi : i < l.length)
    (hj : j < l.length) (d : Char) (e : l.getD i d = l.getD j d) : i = j := by
  rw [List.getD_eq_getElem _ _ hi, List.getD_eq_getElem _ _ hj] at e
  exact (List.Nodup.getElem_inj_iff h).1 e

theorem nameFrom_ne_nil {fuel k : Nat} (h : k < fuel) : nameFrom fuel k ≠ [] := by
  cases fuel with
  | zero => omega
  | succ fuel =>
    unfold nameFrom
    split <;> simp

/-- The characters of a name determine its number. -/
theorem nameFrom_injective {fuel fuel' : Nat} {k k' : Nat} (h : k < fuel) (h' : k' < fuel')
    (e : nameFrom fuel k = nameFrom fuel' k') : k = k' := by
  induction fuel generalizing fuel' k k' with
  | zero => omega
  | succ fuel ih =>
    obtain _ | fuel' := fuel'
    · omega
    have hs : startAlphabet.length = 54 := rfl
    have hr : restAlphabet.length = 64 := rfl
    unfold nameFrom at e
    rw [hs, hr] at e
    split at e <;> split at e
    next hk hk' =>
      exact getD_injective startAlphabet_nodup (by omega) (by omega) 'e' (by simpa using e)
    next hk hk' =>
      -- One character against at least two.
      have hlt : (k' - 54) / 64 < fuel' := by omega
      have hpos := List.length_pos_of_ne_nil (nameFrom_ne_nil hlt)
      have e := congrArg List.length e
      simp only [List.length_append, List.length_cons, List.length_nil] at e
      omega
    next hk hk' =>
      have hlt : (k - 54) / 64 < fuel := by omega
      have hpos := List.length_pos_of_ne_nil (nameFrom_ne_nil hlt)
      have e := congrArg List.length e
      simp only [List.length_append, List.length_cons, List.length_nil] at e
      omega
    next hk hk' =>
      obtain ⟨front, last⟩ := List.append_inj' e rfl
      have div : (k - 54) / 64 = (k' - 54) / 64 := ih (by omega) (by omega) front
      have mod : (k - 54) % 64 = (k' - 54) % 64 :=
        getD_injective restAlphabet_nodup (by omega) (by omega) 'e' (by simpa using last)
      omega

theorem nameAt_injective {k k' : Nat} (e : nameAt k = nameAt k') : k = k' := by
  have e := congrArg String.toList e
  simp only [nameAt, String.toList_ofList] at e
  exact nameFrom_injective (Nat.lt_succ_self k) (Nat.lt_succ_self k') e

/-! ## The search -/

/-- The search ends at a number that is not excluded, unless it and all the others within the fuel
are. -/
theorem nextFresh_spec (excluded : String → Bool) (fuel k : Nat) :
    excluded (nameAt (nextFresh excluded fuel k)) = false ∨
      ∀ i, i ≤ fuel → excluded (nameAt (k + i)) = true := by
  induction fuel generalizing k with
  | zero =>
    cases h : excluded (nameAt k) with
    | false => exact .inl h
    | true =>
      refine .inr fun i hi => ?_
      obtain rfl : i = 0 := by omega
      exact h
  | succ fuel ih =>
    unfold nextFresh
    split
    next hk =>
      refine (ih (k + 1)).imp id fun h i hi => ?_
      obtain _ | i := i
      · exact hk
      · rw [show k + (i + 1) = k + 1 + i by omega]
        exact h i (by omega)
    next hk => exact .inl (by simpa using hk)

/-- The search goes on from where it starts. -/
theorem le_nextFresh (excluded : String → Bool) (fuel k : Nat) : k ≤ nextFresh excluded fuel k := by
  induction fuel generalizing k with
  | zero => exact Nat.le_refl k
  | succ fuel ih =>
    unfold nextFresh
    split
    · have := ih (k + 1)
      omega
    · exact Nat.le_refl k

/-- Among more numbers than there are excluded names, one has a name that is not excluded. -/
theorem exists_not_excluded {excluded : String → Bool} {names : List String}
    (h : ∀ name, excluded name = true → name ∈ names) (k : Nat) :
    ∃ i, i ≤ names.length ∧ excluded (nameAt (k + i)) = false := by
  by_contra hall
  have hsub : (List.range (names.length + 1)).map (fun i => nameAt (k + i)) ⊆ names := by
    intro name hname
    obtain ⟨i, hi, rfl⟩ := List.mem_map.1 hname
    refine h _ (Bool.of_not_eq_false fun hne => hall ⟨i, ?_, hne⟩)
    exact Nat.lt_succ_iff.1 (List.mem_range.1 hi)
  have hnodup : ((List.range (names.length + 1)).map (fun i => nameAt (k + i))).Nodup := by
    refine List.nodup_range.map fun i j e => ?_
    have := nameAt_injective e
    omega
  have hle := (hnodup.subperm hsub).length_le
  rw [List.length_map, List.length_range] at hle
  omega

/-- With fuel for every excluded name, the search ends at one that is not excluded. -/
theorem nextFresh_not_excluded {excluded : String → Bool} {names : List String} {fuel : Nat}
    (h : ∀ name, excluded name = true → name ∈ names) (hf : names.length ≤ fuel) (k : Nat) :
    excluded (nameAt (nextFresh excluded fuel k)) = false := by
  obtain hfresh | hall := nextFresh_spec excluded fuel k
  · exact hfresh
  · obtain ⟨i, hi, hne⟩ := exists_not_excluded h k
    rw [hall i (by omega)] at hne
    contradiction

/-! ## The names taken -/

/-- The reserved names are words of the language or in the list beside them. -/
theorem mem_of_isReserved {name : String} (h : isReserved name = true) :
    name ∈ Word.table.map (·.1) ++ reservedWords := by
  rw [isReserved, Bool.or_eq_true, List.contains_iff_mem] at h
  obtain h | h := h
  · obtain ⟨word, hword⟩ := Option.isSome_iff_exists.1 h
    rw [Word.ofString?, List.lookup_eq_some_iff] at hword
    obtain ⟨front, back, e, -⟩ := hword
    rw [e]
    simp
  · exact List.mem_append_right _ h

theorem length_freshNamesFrom (avoid : List String) (k count : Nat) :
    (freshNamesFrom avoid k count).length = count := by
  induction count generalizing k with
  | zero => rfl
  | succ count ih => simp [freshNamesFrom, ih]

/-- A name taken from number `k` on has such a number, and is neither reserved nor to be avoided. -/
theorem mem_freshNamesFrom {avoid : List String} {k count : Nat} {name : String}
    (h : name ∈ freshNamesFrom avoid k count) :
    (∃ i, k ≤ i ∧ name = nameAt i) ∧ isReserved name = false ∧ name ∉ avoid := by
  induction count generalizing k with
  | zero => simp [freshNamesFrom] at h
  | succ count ih =>
    simp only [freshNamesFrom, List.mem_cons] at h
    obtain rfl | h := h
    · refine ⟨⟨_, le_nextFresh _ _ _, rfl⟩, ?_⟩
      have hexcluded : ∀ name, (isReserved name || avoid.contains name) = true →
          name ∈ Word.table.map (·.1) ++ reservedWords ++ avoid := by
        intro name hname
        rw [Bool.or_eq_true, List.contains_iff_mem] at hname
        exact List.mem_append.2 (hname.imp mem_of_isReserved id)
      have hfuel : (Word.table.map (·.1) ++ reservedWords ++ avoid).length ≤
          Word.table.length + reservedWords.length + avoid.length := by
        simp [Nat.add_assoc]
      simpa using nextFresh_not_excluded hexcluded hfuel k
    · obtain ⟨⟨i, hi, e⟩, hname⟩ := ih h
      have := le_nextFresh (fun name => isReserved name || avoid.contains name)
        (Word.table.length + reservedWords.length + avoid.length) k
      exact ⟨⟨i, by omega, e⟩, hname⟩

theorem freshNamesFrom_nodup (avoid : List String) (k count : Nat) :
    (freshNamesFrom avoid k count).Nodup := by
  induction count generalizing k with
  | zero => exact List.nodup_nil
  | succ count ih =>
    refine List.nodup_cons.2 ⟨fun hmem => ?_, ih _⟩
    obtain ⟨⟨i, hi, e⟩, -⟩ := mem_freshNamesFrom hmem
    have := nameAt_injective e
    omega

theorem length_freshNames (avoid : List String) (count : Nat) :
    (freshNames avoid count).length = count :=
  length_freshNamesFrom avoid 0 count

theorem freshNames_nodup (avoid : List String) (count : Nat) : (freshNames avoid count).Nodup :=
  freshNamesFrom_nodup avoid 0 count

theorem isReserved_of_mem_freshNames {avoid : List String} {count : Nat} {name : String}
    (h : name ∈ freshNames avoid count) : isReserved name = false :=
  (mem_freshNamesFrom h).2.1

theorem not_mem_avoid_of_mem_freshNames {avoid : List String} {count : Nat} {name : String}
    (h : name ∈ freshNames avoid count) : name ∉ avoid :=
  (mem_freshNamesFrom h).2.2

end ScriptMin.Rename
