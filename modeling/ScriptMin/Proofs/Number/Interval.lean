import ScriptMin.Number.Shortest
import ScriptMin.Proofs.Number.Nearest

/-!
# The interval of the numbers that round to a magnitude

`Rounding` keeps the interval around a magnitude as natural numbers over a unit, and
`Rounding.Contains` is the set of rational numbers that it stands for. A quotient of the interval
rounds to the magnitude (`nearestCode_eq`), also below a power of two, where the interval reaches
only half as far.
-/

namespace ScriptMin.Number

/-! ## Codes and magnitudes -/

theorem ofCode_of_lt {code : ℕ} (h : code < 2 ^ 52) : Dyadic.ofCode code = ⟨code, -1074⟩ :=
  if_pos h

theorem ofCode_of_le {code : ℕ} (h : 2 ^ 52 ≤ code) :
    Dyadic.ofCode code = ⟨code % 2 ^ 52 + 2 ^ 52, (code / 2 ^ 52 : ℕ) - 1075⟩ :=
  if_neg (Nat.not_lt.2 h)

theorem mantissa_lt (code : ℕ) : (Dyadic.ofCode code).mantissa < 2 ^ 53 := by
  unfold Dyadic.ofCode
  dsimp only [Nat.pow_eq]
  split_ifs <;> dsimp only <;> omega

theorem exponent_ge (code : ℕ) : -1074 ≤ (Dyadic.ofCode code).exponent := by
  unfold Dyadic.ofCode
  dsimp only [Nat.pow_eq]
  split_ifs <;> dsimp only <;> omega

/-- Only with the least exponent is the leading digit of a mantissa missing. -/
theorem exponent_eq_or (code : ℕ) :
    (Dyadic.ofCode code).exponent = -1074 ∨ 2 ^ 52 ≤ (Dyadic.ofCode code).mantissa := by
  unfold Dyadic.ofCode
  dsimp only [Nat.pow_eq]
  split_ifs <;> dsimp only <;> omega

theorem mantissa_pos {code : ℕ} (h : code ≠ 0) : 0 < (Dyadic.ofCode code).mantissa := by
  unfold Dyadic.ofCode
  dsimp only [Nat.pow_eq]
  split_ifs <;> dsimp only <;> omega

/-- Codes are counted up through the mantissas of each exponent. -/
theorem code_eq (code : ℕ) :
    ((Dyadic.ofCode code).exponent + 1074).toNat * 2 ^ 52 + (Dyadic.ofCode code).mantissa =
      code := by
  unfold Dyadic.ofCode
  dsimp only [Nat.pow_eq]
  split_ifs <;> dsimp only <;> omega

/-- How far the interval reaches below a magnitude, in quarters of the last place. -/
def lowerGap (code : ℕ) : ℕ :=
  if code % 2 ^ 52 = 0 ∧ 2 ^ 52 < code then 1 else 2

/-- The interval is narrow below a magnitude with the least mantissa, unless its exponent is the
least as well. -/
theorem lowerGap_eq (code : ℕ) :
    lowerGap code = 2 ∨
      lowerGap code = 1 ∧ (Dyadic.ofCode code).mantissa = 2 ^ 52 ∧
        -1074 < (Dyadic.ofCode code).exponent := by
  unfold lowerGap Dyadic.ofCode
  dsimp only [Nat.pow_eq]
  split_ifs <;> dsimp only <;> omega

theorem lowerGap_eq_one {code : ℕ} (hmantissa : (Dyadic.ofCode code).mantissa = 2 ^ 52)
    (hexponent : (Dyadic.ofCode code).exponent ≠ -1074) : lowerGap code = 1 := by
  unfold lowerGap Dyadic.ofCode at *
  dsimp only [Nat.pow_eq] at *
  split_ifs at * <;> dsimp only at * <;> omega

/-! ## The interval as a set of rational numbers -/

/-- A rational number lies in the interval. -/
def Rounding.Contains (r : Rounding) (x : ℚ) : Prop :=
  if r.closed then r.low ≤ x * r.unit ∧ x * r.unit ≤ r.high
  else r.low < x * r.unit ∧ x * r.unit < r.high

theorem Rounding.holds_iff {r : Rounding} {n : ℕ} : r.holds n ↔ r.Contains n := by
  unfold holds Contains
  split <;> rw [decide_eq_true_iff] <;> norm_cast

theorem Rounding.contains_onGrid {r : Rounding} {exponent : ℤ} {x : ℚ} :
    (r.onGrid exponent).Contains x ↔ r.Contains (x * 10 ^ exponent) := by
  unfold Contains
  cases exponent with
  | ofNat k =>
    have hunit : x * ((r.unit * 10 ^ k : ℕ) : ℚ) = x * 10 ^ Int.ofNat k * r.unit := by
      rw [Int.ofNat_eq_natCast, zpow_natCast]
      push_cast
      ring
    simp only [onGrid, Nat.pow_eq, hunit]
  | negSucc k =>
    have hpos : (0 : ℚ) < 10 ^ (k + 1) := by positivity
    have hpower : x * 10 ^ Int.negSucc k * r.unit = x * r.unit / 10 ^ (k + 1) := by
      rw [zpow_negSucc]
      ring
    dsimp only [onGrid, Nat.pow_eq]
    simp only [hpower, le_div_iff₀ hpos, div_le_iff₀ hpos, lt_div_iff₀ hpos, div_lt_iff₀ hpos,
      Nat.cast_mul, Nat.cast_pow, Nat.cast_ofNat]

/-- The natural numbers of an interval, over a unit that is a quarter of the last place. -/
theorem Rounding.ofCode_eq (code : ℕ) :
    ∃ factor unit : ℕ, 0 < factor ∧ 0 < unit ∧
      (factor / unit * 4 : ℚ) = 2 ^ (Dyadic.ofCode code).exponent ∧
      Rounding.ofCode code =
        { low := (4 * (Dyadic.ofCode code).mantissa - lowerGap code) * factor
          value := 4 * (Dyadic.ofCode code).mantissa * factor
          high := (4 * (Dyadic.ofCode code).mantissa + 2) * factor
          unit
          closed := (Dyadic.ofCode code).mantissa % 2 == 0 } := by
  have hquarter : (2 : ℚ) ^ ((Dyadic.ofCode code).exponent - 2) * 4 =
      2 ^ (Dyadic.ofCode code).exponent := by
    rw [zpow_sub₀ (by norm_num), zpow_ofNat]
    ring
  unfold Rounding.ofCode lowerGap
  rw [← hquarter]
  dsimp only [Nat.pow_eq]
  cases (Dyadic.ofCode code).exponent - 2 with
  | ofNat e =>
    refine ⟨2 ^ e, 1, by positivity, Nat.one_pos, ?_, rfl⟩
    rw [Int.ofNat_eq_natCast, zpow_natCast]
    push_cast
    ring
  | negSucc e =>
    refine ⟨1, 2 ^ (e + 1), Nat.one_pos, by positivity, ?_, rfl⟩
    rw [zpow_negSucc]
    push_cast
    ring

/-- The numbers of an interval, measured in the last place of its magnitude. -/
theorem Rounding.contains_ofCode {code : ℕ} (hcode : code ≠ 0) {x : ℚ} :
    (Rounding.ofCode code).Contains (x * 2 ^ (Dyadic.ofCode code).exponent) ↔
      if (Dyadic.ofCode code).mantissa % 2 = 0 then
        (Dyadic.ofCode code).mantissa - (lowerGap code / 4 : ℚ) ≤ x ∧
          x ≤ (Dyadic.ofCode code).mantissa + 1 / 2
      else
        (Dyadic.ofCode code).mantissa - (lowerGap code / 4 : ℚ) < x ∧
          x < (Dyadic.ofCode code).mantissa + 1 / 2 := by
  obtain ⟨factor, unit, hfactor, hunit, hpower, heq⟩ := Rounding.ofCode_eq code
  have hpos := mantissa_pos hcode
  have hgap := lowerGap_eq code
  have hfactor' : (0 : ℚ) < factor := by exact_mod_cast hfactor
  have hunit' : (0 : ℚ) < unit := by exact_mod_cast hunit
  have hscaled : x * 2 ^ (Dyadic.ofCode code).exponent * unit = 4 * x * factor := by
    rw [← hpower]
    field_simp
  have hlow : ((4 * (Dyadic.ofCode code).mantissa - lowerGap code : ℕ) : ℚ) =
      4 * ((Dyadic.ofCode code).mantissa - (lowerGap code / 4 : ℚ)) := by
    rw [Nat.cast_sub (by omega)]
    push_cast
    ring
  have hhigh : ((4 * (Dyadic.ofCode code).mantissa + 2 : ℕ) : ℚ) =
      4 * ((Dyadic.ofCode code).mantissa + 1 / 2) := by
    push_cast
    ring
  have hfour : (0 : ℚ) < 4 := by norm_num
  rw [heq]
  simp only [Contains, hscaled, Nat.cast_mul (_ - _), Nat.cast_mul (_ + _), hlow, hhigh,
    mul_le_mul_iff_left₀ hfactor', mul_lt_mul_iff_left₀ hfactor', mul_le_mul_iff_right₀ hfour,
    mul_lt_mul_iff_right₀ hfour, beq_iff_eq]

/-- A number of the interval is no further than half of the last place from the magnitude. -/
theorem Rounding.Contains.bounds {code : ℕ} (hcode : code ≠ 0) {x : ℚ}
    (h : (Rounding.ofCode code).Contains (x * 2 ^ (Dyadic.ofCode code).exponent)) :
    (Dyadic.ofCode code).mantissa - (1 / 2 : ℚ) ≤ x ∧
      x ≤ (Dyadic.ofCode code).mantissa + 1 / 2 := by
  rw [Rounding.contains_ofCode hcode] at h
  have hgap : (lowerGap code : ℚ) ≤ 2 := by
    have := lowerGap_eq code
    have : lowerGap code ≤ 2 := by omega
    exact_mod_cast this
  split_ifs at h <;> constructor <;> linarith

/-- Every rational number is a multiple of the last place. -/
theorem exists_eq_mul_zpow (x : ℚ) (exponent : ℤ) : ∃ y : ℚ, x = y * 2 ^ exponent :=
  ⟨x / 2 ^ exponent, (div_mul_cancel₀ x (by positivity)).symm⟩

theorem Rounding.not_contains_zero {code : ℕ} (hcode : code ≠ 0) :
    ¬ (Rounding.ofCode code).Contains 0 := by
  intro h
  have hpos : (1 : ℚ) ≤ (Dyadic.ofCode code).mantissa := by exact_mod_cast mantissa_pos hcode
  rw [← zero_mul (2 ^ (Dyadic.ofCode code).exponent)] at h
  obtain ⟨hlow, -⟩ := h.bounds hcode
  linarith

/-- A magnitude lies in its own interval. -/
theorem Rounding.contains_self {code : ℕ} (hcode : code ≠ 0) :
    (Rounding.ofCode code).Contains
      ((Dyadic.ofCode code).mantissa * 2 ^ (Dyadic.ofCode code).exponent) := by
  have hgap : (1 : ℚ) ≤ lowerGap code := by
    have := lowerGap_eq code
    have : 1 ≤ lowerGap code := by omega
    exact_mod_cast this
  rw [Rounding.contains_ofCode hcode]
  split_ifs <;> constructor <;> linarith

/-- The code that rounding to a multiple of a unit gives. -/
theorem nearestCode_of_roundTo {code n d m : ℕ} {exponent : ℤ} (hn : n ≠ 0)
    (hunit : unitExponent n d = exponent) (hround : roundTo n d exponent = m)
    (hcode : (exponent + 1074).toNat * 2 ^ 52 + m = code) (hfinite : code < infinityCode) :
    nearestCode n d = code := by
  unfold nearestCode
  dsimp only [Nat.pow_eq]
  rw [if_neg hn, hunit, hround, hcode]
  exact Nat.min_eq_right hfinite.le

/-- A quotient in the interval of a finite magnitude rounds to it. -/
theorem nearestCode_eq {code n d : ℕ} (hcode : code ≠ 0) (hfinite : code < infinityCode)
    (hd : d ≠ 0) (h : (Rounding.ofCode code).Contains (n / d)) : nearestCode n d = code := by
  have hexponent := exponent_ge code
  have hlt := mantissa_lt code
  have hnormal := exponent_eq_or code
  have hgap := lowerGap_eq code
  have hnarrow : (Dyadic.ofCode code).mantissa = 2 ^ 52 →
      (Dyadic.ofCode code).exponent ≠ -1074 → lowerGap code = 1 := lowerGap_eq_one
  have hsum := code_eq code
  generalize hM : (Dyadic.ofCode code).mantissa = M at *
  generalize hE : (Dyadic.ofCode code).exponent = E at *
  generalize hG : lowerGap code = G at *
  have hscale : (0 : ℚ) < 2 ^ E := by positivity
  obtain ⟨y, hy⟩ := exists_eq_mul_zpow (n / d) E
  have hbounds := h
  rw [hy, ← hE, Rounding.contains_ofCode hcode, hM, hG] at hbounds
  have hG₁ : (G : ℚ) ≤ 2 := by
    have : G ≤ 2 := by omega
    exact_mod_cast this
  have hM₂ : (M : ℚ) + 1 ≤ 2 ^ 53 := by exact_mod_cast hlt
  have hlow : M - (G / 4 : ℚ) ≤ y := by split_ifs at hbounds <;> linarith
  have hhigh : y ≤ M + 1 / 2 := by split_ifs at hbounds <;> linarith
  have hn : n ≠ 0 := by
    rintro rfl
    rw [Nat.cast_zero, zero_div] at h
    exact Rounding.not_contains_zero hcode h
  by_cases hunit : E = -1074 ∨ (2 : ℚ) ^ 52 ≤ y
  · have hlast : unitExponent n d = E := by
      refine unitExponent_eq hn hd hexponent ?_ (hunit.imp_right fun h52 => ?_)
      · rw [hy, zpow_add₀ (by norm_num)]
        gcongr
        norm_num at hM₂ ⊢
        linarith
      · rw [hy, zpow_add₀ (by norm_num)]
        gcongr
        exact_mod_cast h52
    refine nearestCode_of_roundTo hn hlast (roundTo_eq (Nat.pos_of_ne_zero hd) ?_ ?_) hsum hfinite
    · rw [hy, mul_div_cancel_right₀ _ hscale.ne', abs_le]
      constructor <;> linarith
    · -- an odd mantissa leaves its ends to its neighbours
      rw [hy, mul_div_cancel_right₀ _ hscale.ne']
      intro htie
      by_contra hodd
      rw [if_neg hodd] at hbounds
      rcases (abs_eq (by norm_num)).1 htie with hup | hdown <;> linarith
  · -- below the least mantissa of an exponent the last place is half as large
    obtain ⟨hE', hy'⟩ := not_or.1 hunit
    have hM' : M = 2 ^ 52 := by
      refine Nat.le_antisymm ?_ (hnormal.resolve_left hE')
      by_contra hlarge
      have : (2 ^ 52 + 1 : ℚ) ≤ M := by exact_mod_cast Nat.lt_of_not_le hlarge
      linarith
    obtain rfl : G = 1 := hnarrow hM' hE'
    have hhalf : (n / d : ℚ) = 2 * y * 2 ^ (E - 1) := by
      rw [hy, zpow_sub₀ (by norm_num), zpow_one]
      ring
    have hscale' : (0 : ℚ) < 2 ^ (E - 1) := by positivity
    rw [hM'] at hlow
    push_cast at hlow
    have hlast : unitExponent n d = E - 1 := by
      refine unitExponent_eq hn hd (by omega) ?_ (.inr ?_)
      · rw [hhalf, zpow_add₀ (by norm_num)]
        gcongr
        norm_num at hy' ⊢
        linarith
      · rw [hhalf, zpow_add₀ (by norm_num)]
        gcongr
        norm_num at hlow ⊢
        linarith
    have hround : roundTo n d (E - 1) = 2 ^ 53 := by
      refine roundTo_eq (Nat.pos_of_ne_zero hd) ?_ fun _ => by norm_num
      rw [hhalf, mul_div_cancel_right₀ _ hscale'.ne', abs_le]
      push_cast
      constructor <;> linarith
    have hstep : (E + 1074).toNat = (E - 1 + 1074).toNat + 1 := by omega
    have hcount : (E - 1 + 1074).toNat * 2 ^ 52 + 2 ^ 53 = code := by
      rw [← hsum, hM', hstep]
      ring
    exact nearestCode_of_roundTo hn hlast hround hcount hfinite

/-- The same quotient as a number. -/
theorem nearest_eq {code n d : ℕ} (hcode : code ≠ 0) (hfinite : code < infinityCode) (hd : d ≠ 0)
    (h : (Rounding.ofCode code).Contains (n / d)) : nearest n d = ofCode false code := by
  rw [nearest, nearestCode_eq hcode hfinite hd h]

end ScriptMin.Number
