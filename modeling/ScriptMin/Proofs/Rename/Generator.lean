import Mathlib.Data.List.Induction
import Mathlib.Data.List.Shortlex
import ScriptMin.Proofs.Rename.FirstFree

/-!
# The generator gives the shortest names

Short names are in order by their length, and names of one length by where their characters stand in
the alphabets, from the first character on. The numbers of names follow that order
(`before_nameAt_iff`), and every short name has a number (`isShortName_iff`). The counter of a
generator goes through the numbers one by one (`NameGenerator.name_advance`), since a carry leaves
one more name behind it. So a call ends at the first free number from there on
(`NameGenerator.next?_nextFree`), and successive calls give the first names in order that may be
given (`NameGenerator.names?_shortest`), which are those that a scope takes.
-/

namespace ScriptMin.Rename

/-- A name that starts with a character of one alphabet and goes on with those of the other. -/
def IsShortName (name : String) : Prop :=
  ∃ first rest, name.toList = first :: rest ∧ first ∈ startAlphabet ∧ ∀ c ∈ rest, c ∈ restAlphabet

/-- Where the characters of a name stand in the alphabets. -/
def digitsOf : List Char → List Nat
  | [] => []
  | first :: rest => startAlphabet.idxOf first :: rest.map restAlphabet.idxOf

/-- A name comes before another one if it is shorter, or as long and before it in the alphabets. -/
def Before (a b : String) : Prop :=
  List.Shortlex (· < ·) (digitsOf a.toList) (digitsOf b.toList)

/-! ## The characters of a numbered name -/

/-- More fuel than is needed changes nothing. -/
theorem nameFrom_fuel {fuel fuel' k : Nat} (h : k < fuel) (h' : k < fuel') :
    nameFrom fuel k = nameFrom fuel' k := by
  induction fuel generalizing fuel' k with
  | zero => omega
  | succ fuel ih =>
    obtain _ | fuel' := fuel'
    · omega
    have hs : startAlphabet.length = 54 := rfl
    unfold nameFrom
    rw [hs]
    split
    · rfl
    · have hdiv := Nat.div_le_self (k - 54) restAlphabet.length
      dsimp only
      rw [@ih fuel' _ (by omega) (by omega)]

theorem toList_nameAt_of_lt {k : Nat} (h : k < startAlphabet.length) :
    (nameAt k).toList = [startAlphabet.getD k 'e'] := by
  rw [nameAt, String.toList_ofList, nameFrom, if_pos h]

/-- After the names of one character, each name in turn is followed by every character. -/
theorem toList_nameAt_add (q : Nat) {r : Nat} (h : r < restAlphabet.length) :
    (nameAt (startAlphabet.length + (restAlphabet.length * q + r))).toList =
      (nameAt q).toList ++ [restAlphabet.getD r 'e'] := by
  have hpos : 0 < restAlphabet.length := by omega
  have hdiv : (restAlphabet.length * q + r) / restAlphabet.length = q := by
    rw [Nat.mul_add_div hpos, Nat.div_eq_of_lt h, Nat.add_zero]
  have hle : q ≤ restAlphabet.length * q := Nat.le_mul_of_pos_left q hpos
  have hs : 0 < startAlphabet.length := by decide
  rw [nameAt, nameAt, String.toList_ofList, String.toList_ofList, nameFrom, if_neg (by omega)]
  dsimp only
  rw [Nat.add_sub_cancel_left, hdiv, Nat.mul_add_mod, Nat.mod_eq_of_lt h,
    nameFrom_fuel (by omega) (Nat.lt_succ_self q)]

/-- A number is that of a name of one character, or that of a name with one more character at its
end. -/
theorem exists_front {k : Nat} (h : startAlphabet.length ≤ k) :
    ∃ q r, r < restAlphabet.length ∧ q < k ∧
      k = startAlphabet.length + (restAlphabet.length * q + r) := by
  have hs : startAlphabet.length = 54 := rfl
  have hr : restAlphabet.length = 64 := rfl
  rw [hs] at h
  rw [hs, hr]
  exact ⟨(k - 54) / 64, (k - 54) % 64, by omega, by omega, by omega⟩

/-- Induction on a number along the characters of its name. -/
@[elab_as_elim]
theorem number_induction {motive : Nat → Prop} (k : Nat)
    (first : ∀ k, k < startAlphabet.length → motive k)
    (grown : ∀ q r, r < restAlphabet.length → motive q →
      motive (startAlphabet.length + (restAlphabet.length * q + r))) : motive k := by
  induction k using Nat.strongRecOn with
  | ind k ih =>
    rcases Nat.lt_or_ge k startAlphabet.length with hk | hk
    · exact first k hk
    · obtain ⟨q, r, hr, hq, rfl⟩ := exists_front hk
      exact grown q r hr (ih q hq)

theorem toList_nameAt_ne_nil (k : Nat) : (nameAt k).toList ≠ [] := by
  rw [nameAt, String.toList_ofList]
  exact nameFrom_ne_nil (Nat.lt_succ_self k)

/-! ## The order of numbers -/

/-- Within a list without repetition, an element stands where it is found. -/
theorem idxOf_getD {l : List Char} (h : l.Nodup) {i : Nat} (hi : i < l.length) (d : Char) :
    l.idxOf (l.getD i d) = i := by
  rw [List.getD_eq_getElem _ _ hi, h.idxOf_getElem]

theorem digitsOf_concat {name : List Char} (h : name ≠ []) (c : Char) :
    digitsOf (name ++ [c]) = digitsOf name ++ [restAlphabet.idxOf c] := by
  cases name with
  | nil => contradiction
  | cons first rest => simp [digitsOf]

theorem length_digitsOf (name : List Char) : (digitsOf name).length = name.length := by
  cases name <;> simp [digitsOf]

theorem digitsOf_nameAt_of_lt {k : Nat} (h : k < startAlphabet.length) :
    digitsOf (nameAt k).toList = [k] := by
  rw [toList_nameAt_of_lt h, digitsOf, idxOf_getD startAlphabet_nodup h, List.map_nil]

theorem digitsOf_nameAt_add (q : Nat) {r : Nat} (h : r < restAlphabet.length) :
    digitsOf (nameAt (startAlphabet.length + (restAlphabet.length * q + r))).toList =
      digitsOf (nameAt q).toList ++ [r] := by
  rw [toList_nameAt_add q h, digitsOf_concat (toList_nameAt_ne_nil q),
    idxOf_getD restAlphabet_nodup h]

/-- What follows lists that are in order does not matter, if it is equally long. -/
theorem shortlex_concat {s t : List Nat} (h : List.Shortlex (· < ·) s t) (a b : Nat) :
    List.Shortlex (· < ·) (s ++ [a]) (t ++ [b]) := by
  rcases List.shortlex_def.1 h with hlength | ⟨hlength, hlex⟩
  · exact List.Shortlex.of_length_lt (by simpa using hlength)
  · refine List.Shortlex.of_lex (by simpa using hlength) ?_
    clear h
    induction hlex with
    | nil => simp at hlength
    | rel hlt => exact .rel hlt
    | cons _ ih => exact .cons (ih (by simpa using hlength))

theorem before_nameAt {i j : Nat} (h : i < j) : Before (nameAt i) (nameAt j) := by
  induction j using number_induction generalizing i with
  | first j hj =>
    rw [Before, digitsOf_nameAt_of_lt (h.trans hj), digitsOf_nameAt_of_lt hj]
    exact (List.shortlex_singleton_iff i j).2 h
  | grown q' r' hr' ih =>
    rw [Before, digitsOf_nameAt_add q' hr']
    rcases Nat.lt_or_ge i startAlphabet.length with hi | hi
    · -- One character against at least two.
      have hpos := List.length_pos_of_ne_nil (toList_nameAt_ne_nil q')
      refine List.Shortlex.of_length_lt ?_
      rw [digitsOf_nameAt_of_lt hi, List.length_append, length_digitsOf]
      simpa using hpos
    · obtain ⟨q, r, hr, -, rfl⟩ := exists_front hi
      rw [digitsOf_nameAt_add q hr]
      have hlength : restAlphabet.length = 64 := rfl
      rw [hlength] at h hr hr'
      -- The last character decides only between names that are equal before it.
      rcases Nat.lt_trichotomy q q' with hq | rfl | hq
      · exact shortlex_concat (ih hq) r r'
      · refine List.Shortlex.append_left ?_ _
        exact (List.shortlex_singleton_iff r r').2 (by omega)
      · omega

theorem Before.asymm {a b : String} (h : Before a b) : ¬Before b a :=
  Std.Asymm.asymm (r := List.Shortlex (· < ·)) _ _ h

/-- The numbers of names are in their order. -/
theorem before_nameAt_iff {i j : Nat} : Before (nameAt i) (nameAt j) ↔ i < j := by
  refine ⟨fun h => ?_, before_nameAt⟩
  by_contra hle
  rcases Nat.eq_or_lt_of_le (Nat.le_of_not_lt hle) with rfl | hlt
  · exact h.asymm h
  · exact h.asymm (before_nameAt hlt)

/-! ## The short names have numbers -/

theorem isShortName_nameAt (k : Nat) : IsShortName (nameAt k) := by
  induction k using number_induction with
  | first k hk =>
    refine ⟨_, [], toList_nameAt_of_lt hk, ?_, by simp⟩
    rw [List.getD_eq_getElem _ _ hk]
    exact List.getElem_mem hk
  | grown q r hr ih =>
    obtain ⟨first, rest, hname, hfirst, hrest⟩ := ih
    refine ⟨first, rest ++ [restAlphabet.getD r 'e'], ?_, hfirst, fun c hc => ?_⟩
    · rw [toList_nameAt_add q hr, hname, List.cons_append]
    · rcases List.mem_append.1 hc with hc | hc
      · exact hrest c hc
      · rw [List.mem_singleton.1 hc, List.getD_eq_getElem _ _ hr]
        exact List.getElem_mem hr

theorem isShortName_iff {name : String} : IsShortName name ↔ ∃ k, nameAt k = name := by
  refine ⟨?_, fun ⟨k, e⟩ => e ▸ isShortName_nameAt k⟩
  rintro ⟨first, rest, hname, hfirst, hrest⟩
  suffices ∃ k, (nameAt k).toList = first :: rest by
    obtain ⟨k, hk⟩ := this
    exact ⟨k, String.toList_inj.1 (hk.trans hname.symm)⟩
  clear hname
  -- From the end, since that is where a number has its lowest digit.
  induction rest using List.reverseRecOn with
  | nil =>
    have hlt := List.idxOf_lt_length_iff.2 hfirst
    refine ⟨startAlphabet.idxOf first, ?_⟩
    rw [toList_nameAt_of_lt hlt, List.getD_eq_getElem _ _ hlt, List.getElem_idxOf]
  | append_singleton rest c ih =>
    obtain ⟨q, hq⟩ := ih fun c hc => hrest c (List.mem_append_left _ hc)
    have hlt := List.idxOf_lt_length_iff.2 (hrest c (List.mem_append_right _ List.mem_cons_self))
    refine ⟨_, (toList_nameAt_add q hlt).trans ?_⟩
    rw [hq, List.getD_eq_getElem _ _ hlt, List.getElem_idxOf, List.cons_append]

/-! ## The number of a counter -/

/-- How many names a counter with these digits has come to. -/
def counted : List Nat → Nat
  | [] => 0
  | digit :: front =>
    match counted front with
    | 0 => digit + 1
    | q + 1 => startAlphabet.length + (restAlphabet.length * q + digit) + 1

theorem counted_singleton (digit : Nat) : counted [digit] = digit + 1 := rfl

theorem counted_cons {front : List Nat} {q : Nat} (h : counted front = q + 1) (digit : Nat) :
    counted (digit :: front) = startAlphabet.length + (restAlphabet.length * q + digit) + 1 := by
  rw [counted, h]

theorem exists_counted {digits : List Nat} (h : digits ≠ []) : ∃ q, counted digits = q + 1 := by
  cases digits with
  | nil => contradiction
  | cons digit front =>
    unfold counted
    split <;> exact ⟨_, rfl⟩

theorem alphabetAfter_nil : alphabetAfter [] = startAlphabet := rfl

theorem alphabetAfter_of_ne_nil {front : List Nat} (h : front ≠ []) :
    alphabetAfter front = restAlphabet := by
  rw [alphabetAfter, if_neg (by simpa using h)]

/-- Counting up comes to one name more. -/
theorem counted_countUp {digits : List Nat} (h : InAlphabets digits) :
    counted (countUp digits) = counted digits + 1 := by
  induction digits with
  | nil => rfl
  | cons digit front ih =>
    have hs : startAlphabet.length = 54 := rfl
    have hr : restAlphabet.length = 64 := rfl
    have hdigit := h.1
    unfold countUp
    by_cases hfront : front = []
    · subst hfront
      rw [alphabetAfter_nil] at hdigit ⊢
      split
      next hend =>
        -- The carry puts a character in front, and what was first counts in the other alphabet.
        rw [countUp, counted_cons (counted_singleton 0), counted_singleton]
        omega
      next hend => rfl
    · obtain ⟨q, hq⟩ := exists_counted hfront
      rw [alphabetAfter_of_ne_nil hfront] at hdigit ⊢
      rw [counted_cons hq]
      split
      next hend =>
        rw [counted_cons (ih h.2 |>.trans (by rw [hq])), Nat.mul_succ]
        omega
      next hend =>
        rw [counted_cons hq]
        omega

/-- A counter spells the name with the number that it has come to. -/
theorem spelled_eq {digits : List Nat} {k : Nat} (h : InAlphabets digits)
    (hk : counted digits = k + 1) : spelled digits = (nameAt k).toList := by
  induction digits generalizing k with
  | nil => cases hk
  | cons digit front ih =>
    have hdigit := h.1
    unfold spelled
    by_cases hfront : front = []
    · subst hfront
      obtain rfl : digit = k := by simpa [counted] using hk
      exact (toList_nameAt_of_lt hdigit).symm
    · obtain ⟨q, hq⟩ := exists_counted hfront
      rw [alphabetAfter_of_ne_nil hfront] at hdigit ⊢
      rw [counted_cons hq] at hk
      obtain rfl := Nat.succ.inj hk
      rw [toList_nameAt_add q hdigit, ih h.2 hq]

/-! ## One call -/

namespace NameGenerator

/-- How many names a generator has come to. -/
def count (g : NameGenerator) : Nat := counted g.digits

theorem count_advance (g : NameGenerator) : g.advance.count = g.count + 1 :=
  counted_countUp g.inAlphabets

theorem reserved_advance (g : NameGenerator) : g.advance.reserved = g.reserved := rfl

theorem name_advance (g : NameGenerator) : g.advance.name = nameAt g.count := by
  rw [name, spelled_eq g.advance.inAlphabets g.count_advance, String.ofList_toList]

theorem isExcluded_advance_iff (g : NameGenerator) (avoid : List String) :
    g.advance.isExcluded avoid = true ↔ Excluded (avoid ++ g.reserved) (nameAt g.count) := by
  rw [isExcluded, name_advance, reserved_advance, Excluded]
  simp [or_assoc]

/-- A call counts on over excluded names and gives the first one that is not. -/
theorem next?_eq {avoid : List String} {j rounds : Nat} (g : NameGenerator) (hle : g.count ≤ j)
    (hpassed : ∀ i, g.count ≤ i → i < j → Excluded (avoid ++ g.reserved) (nameAt i))
    (hfree : ¬Excluded (avoid ++ g.reserved) (nameAt j)) (hrounds : j < g.count + rounds) :
    ∃ g', g.next? avoid rounds = some (nameAt j, g') ∧ g'.reserved = g.reserved ∧
      g'.count = j + 1 := by
  induction rounds generalizing g with
  | zero => omega
  | succ rounds ih =>
    have hcount := g.count_advance
    unfold next?
    rcases Nat.eq_or_lt_of_le hle with rfl | hlt
    · refine ⟨g.advance, ?_, rfl, hcount⟩
      rw [if_neg (mt (g.isExcluded_advance_iff avoid).1 hfree), name_advance]
    · -- The name that was come to is passed, and the rounds that are left are enough.
      rw [if_pos ((g.isExcluded_advance_iff avoid).2 (hpassed _ le_rfl hlt))]
      exact ih g.advance (by omega) (fun i hi => hpassed i (by omega)) hfree (by omega)

/-- A call comes to the next free name in no more rounds than there are excluded names, and one. -/
theorem next?_nextFree (g : NameGenerator) {avoid : List String} {rounds : Nat}
    (hrounds : excludedCount (avoid ++ g.reserved) < rounds) :
    ∃ g', g.next? avoid rounds = some (nameAt (nextFree (avoid ++ g.reserved) g.count), g') ∧
      g'.reserved = g.reserved ∧ g'.count = nextFree (avoid ++ g.reserved) g.count + 1 := by
  have hle := nextFree_le (avoid ++ g.reserved) g.count
  exact g.next?_eq (le_nextFree _ _) (fun i => excluded_of_lt_nextFree)
    (not_excluded_nextFree _ _) (by omega)

end NameGenerator

/-! ## Successive calls -/

/-- The first free numbers from `k` on, in order, each for its own names to avoid. -/
def freeNumbers (reserved : List String) (k : Nat) : List (List String) → List Nat
  | [] => []
  | avoid :: avoids =>
    nextFree (avoid ++ reserved) k ::
      freeNumbers reserved (nextFree (avoid ++ reserved) k + 1) avoids

theorem le_of_mem_freeNumbers {reserved : List String} {avoids : List (List String)} {k j : Nat}
    (h : j ∈ freeNumbers reserved k avoids) : k ≤ j := by
  induction avoids generalizing k with
  | nil => cases h
  | cons avoid avoids ih =>
    have hle := le_nextFree (avoid ++ reserved) k
    rcases List.mem_cons.1 h with rfl | h
    · exact hle
    · have := ih h
      omega

theorem pairwise_freeNumbers (reserved : List String) (k : Nat) (avoids : List (List String)) :
    (freeNumbers reserved k avoids).Pairwise (· < ·) := by
  induction avoids generalizing k with
  | nil => exact .nil
  | cons avoid avoids ih => exact .cons (fun _ h => le_of_mem_freeNumbers h) (ih _)

theorem not_excluded_freeNumbers (reserved : List String) (k : Nat) (avoids : List (List String)) :
    List.Forall₂ (fun avoid j => ¬Excluded (avoid ++ reserved) (nameAt j)) avoids
      (freeNumbers reserved k avoids) := by
  induction avoids generalizing k with
  | nil => exact .nil
  | cons avoid avoids ih => exact .cons (not_excluded_nextFree _ _) (ih _)

/-- A number that is left out was passed by the call for which it is between the numbers before and
those from that call on. Its name was excluded there. -/
theorem exists_passed {reserved : List String} {avoids : List (List String)} {k i j : Nat}
    (hk : k ≤ i) (hij : i < j) (hj : j ∈ freeNumbers reserved k avoids)
    (hi : i ∉ freeNumbers reserved k avoids) :
    ∃ n avoid, avoids[n]? = some avoid ∧ Excluded (avoid ++ reserved) (nameAt i) ∧
      (∀ earlier ∈ (freeNumbers reserved k avoids).take n, earlier < i) ∧
      ∀ later ∈ (freeNumbers reserved k avoids).drop n, i < later := by
  induction avoids generalizing k with
  | nil => cases hj
  | cons avoid avoids ih =>
    unfold freeNumbers at hj hi ⊢
    rw [List.mem_cons, not_or] at hi
    rcases Nat.lt_or_ge i (nextFree (avoid ++ reserved) k) with hlt | hge
    · -- The first call passed it, and all the numbers are behind it.
      refine ⟨0, avoid, rfl, excluded_of_lt_nextFree hk hlt, by simp, fun later hlater => ?_⟩
      rcases List.mem_cons.1 hlater with rfl | hlater
      · exact hlt
      · have := le_of_mem_freeNumbers hlater
        omega
    · have hpast : nextFree (avoid ++ reserved) k < i := by omega
      obtain rfl | hj := List.mem_cons.1 hj
      · omega
      obtain ⟨n, avoid', havoid, hexcluded, hearlier, hlater⟩ := ih hpast hj hi.2
      refine ⟨n + 1, avoid', havoid, hexcluded, fun earlier hmem => ?_, hlater⟩
      rcases List.mem_cons.1 hmem with rfl | hmem
      · exact hpast
      · exact hearlier earlier hmem

/-- With the same names to avoid each time, the names are those that a scope takes. -/
theorem map_freeNumbers_replicate (reserved avoid : List String) (k count : Nat) :
    (freeNumbers reserved k (List.replicate count avoid)).map nameAt =
      freshNamesFrom (avoid ++ reserved) k count := by
  induction count generalizing k with
  | zero => rfl
  | succ count ih =>
    rw [List.replicate_succ, freeNumbers, List.map_cons, ih, freshNamesFrom_succ]

namespace NameGenerator

theorem names?_eq (g : NameGenerator) {avoids : List (List String)} {rounds : Nat}
    (hrounds : ∀ avoid ∈ avoids, excludedCount (avoid ++ g.reserved) < rounds) :
    g.names? rounds avoids = some ((freeNumbers g.reserved g.count avoids).map nameAt) := by
  induction avoids generalizing g with
  | nil => rfl
  | cons avoid avoids ih =>
    rw [List.forall_mem_cons] at hrounds
    obtain ⟨g', hnext, hreserved, hcount⟩ := g.next?_nextFree hrounds.1
    have hnames := ih g' (by rw [hreserved]; exact hrounds.2)
    rw [hreserved, hcount] at hnames
    simp [names?, hnext, hnames, freeNumbers]

/-- Successive calls give the shortest names there are. Whatever is reserved and whatever each call
is to avoid, every call ends, in no more rounds than there are excluded names, and one. It gives a
short name that it may give, and the names are in order. A short name that is left out before one of
them was passed by a call that may not give it. A scope takes the names of calls that avoid the
same. -/
theorem names?_shortest (reserved : List String) (avoids : List (List String)) :
    ∃ names,
      (∀ rounds, (∀ avoid ∈ avoids, excludedCount (avoid ++ reserved) < rounds) →
        (ofReserved reserved).names? rounds avoids = some names) ∧
      List.Forall₂ (fun avoid name => IsShortName name ∧ ¬Excluded (avoid ++ reserved) name)
        avoids names ∧
      names.Pairwise Before ∧
      (∀ name ∈ names, ∀ other, IsShortName other → Before other name → other ∉ names →
        ∃ n avoid, avoids[n]? = some avoid ∧ Excluded (avoid ++ reserved) other ∧
          (∀ earlier ∈ names.take n, Before earlier other) ∧
          ∀ later ∈ names.drop n, Before other later) ∧
      ∀ avoid count, avoids = List.replicate count avoid →
        freshNames (avoid ++ reserved) count = names := by
  refine ⟨(freeNumbers reserved 0 avoids).map nameAt,
    fun rounds => (ofReserved reserved).names?_eq, ?_, ?_, ?_, ?_⟩
  · rw [List.forall₂_map_right_iff]
    exact (not_excluded_freeNumbers reserved 0 avoids).imp
      fun _ j hfree => ⟨isShortName_nameAt j, hfree⟩
  · exact List.pairwise_map.2 ((pairwise_freeNumbers reserved 0 avoids).imp before_nameAt)
  · intro name hname other hother hbefore hout
    obtain ⟨j, hj, rfl⟩ := List.mem_map.1 hname
    obtain ⟨i, rfl⟩ := isShortName_iff.1 hother
    have hi : i ∉ freeNumbers reserved 0 avoids := fun hi => hout (List.mem_map_of_mem hi)
    obtain ⟨n, avoid, havoid, hexcluded, hearlier, hlater⟩ :=
      exists_passed (Nat.zero_le i) (before_nameAt_iff.1 hbefore) hj hi
    refine ⟨n, avoid, havoid, hexcluded, ?_, ?_⟩
    · rw [← List.map_take, List.forall_mem_map]
      exact fun earlier hmem => before_nameAt (hearlier earlier hmem)
    · rw [← List.map_drop, List.forall_mem_map]
      exact fun later hmem => before_nameAt (hlater later hmem)
  · rintro avoid count rfl
    exact (map_freeNumbers_replicate reserved avoid 0 count).symm

example : (ofReserved ["n"]).names? 70 [["t"], ["t"], ["t"]] = some ["e", "r", "i"] := by
  decide +kernel

end NameGenerator

end ScriptMin.Rename
