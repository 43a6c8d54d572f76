import ScriptMin.Proofs.Number.Interval

/-!
# The shortest decimal lies in the interval

The search for the coarsest grid tries only so many grids. It finds a point all the same, as the
last grid is finer than half of the interval (`ten_zpow_decimalBound_lt`), so the decimal that it
gives lies in the interval of its magnitude (`contains_shortest`).
-/

namespace ScriptMin.Number

/-! ## Searching the grids -/

theorem Rounding.holds_of_nearestWhole? {r : Rounding} {t : Tie} {n : ℕ}
    (h : r.nearestWhole? t = some n) : r.holds n := by
  unfold nearestWhole? at h
  dsimp only at h
  split at h
  case h_1 hbelow habove =>
    split_ifs at h
    · rwa [Option.some.inj h] at hbelow
    · rwa [Option.some.inj h] at habove
  case h_2 hbelow _ => rwa [Option.some.inj h] at hbelow
  case h_3 _ habove => rwa [Option.some.inj h] at habove
  case h_4 => cases h

/-- A grid that is finer than the upper part of the interval has a point there. -/
theorem Rounding.nearestWhole?_isSome {r : Rounding} (t : Tie) (hunit : 0 < r.unit)
    (hlow : r.low ≤ r.value) (hhigh : r.value + r.unit < r.high) :
    (r.nearestWhole? t).isSome := by
  have hvalue := Nat.div_add_mod r.value r.unit
  have hmod := Nat.mod_lt r.value hunit
  have hholds : r.holds (r.value / r.unit + 1) := by
    have hpoint : (r.value / r.unit + 1) * r.unit = r.unit * (r.value / r.unit) + r.unit := by ring
    unfold holds
    rw [hpoint]
    split <;> rw [decide_eq_true_iff] <;> omega
  unfold nearestWhole?
  dsimp only
  rw [hholds]
  cases r.holds (r.value / r.unit)
  · rfl
  · dsimp only
    split_ifs <;> rfl

/-- What the search gives is a point of its grid, if one of the grids tried has a point. -/
theorem Rounding.coarsest_spec {r : Rounding} {t : Tie} {steps : ℕ} {exponent : ℤ}
    (h : ∃ k < steps, ((r.onGrid (exponent - k)).nearestWhole? t).isSome) :
    (r.onGrid (r.coarsest t steps exponent).exponent).holds
      (r.coarsest t steps exponent).digits := by
  induction steps generalizing exponent with
  | zero =>
    obtain ⟨k, hk, -⟩ := h
    omega
  | succ steps ih =>
    unfold coarsest
    cases hfound : (r.onGrid exponent).nearestWhole? t with
    | some digits => exact holds_of_nearestWhole? hfound
    | none =>
      obtain ⟨k, hk, hsome⟩ := h
      cases k with
      | zero =>
        rw [Nat.cast_zero, sub_zero, hfound] at hsome
        cases hsome
      | succ k =>
        refine ih ⟨k, by omega, ?_⟩
        rwa [sub_sub, ← Nat.cast_one, ← Nat.cast_add, Nat.add_comm]

/-! ## The last grid is fine enough -/

/-- A power of ten is below a power of two if the exponents are far enough apart. -/
theorem ten_zpow_lt {a b : ℤ} (hpos : 0 ≤ a → 10 * a < 3 * b) (hneg : a < 0 → 93 * a < 28 * b) :
    (10 : ℚ) ^ a < 2 ^ b := by
  rcases le_or_gt 0 a with ha | ha
  · have hthree : ((10 : ℚ) ^ a) ^ 3 < (2 ^ b) ^ 3 := by
      calc ((10 : ℚ) ^ a) ^ 3 = (1000 : ℚ) ^ a := by
            rw [← zpow_natCast, ← zpow_mul, mul_comm, zpow_mul]
            norm_num
        _ ≤ 1024 ^ a := zpow_le_zpow_left₀ ha (by norm_num) (by norm_num)
        _ = 2 ^ (10 * a) := by
            rw [zpow_mul]
            norm_num
        _ < 2 ^ (3 * b) := zpow_lt_zpow_right₀ (by norm_num) (hpos ha)
        _ = (2 ^ b) ^ 3 := by rw [← zpow_natCast, ← zpow_mul, mul_comm]; rfl
    exact lt_of_pow_lt_pow_left₀ 3 (by positivity) hthree
  · have hpower : ((10 : ℚ) ^ a) ^ 28 < (2 ^ b) ^ 28 := by
      obtain ⟨n, rfl⟩ : ∃ n : ℕ, a = -n := ⟨a.natAbs, by omega⟩
      calc ((10 : ℚ) ^ (-n : ℤ)) ^ 28 = ((10 ^ 28 : ℚ) ^ n)⁻¹ := by
            rw [zpow_neg, zpow_natCast, inv_pow, ← pow_mul, ← pow_mul, Nat.mul_comm]
        _ ≤ ((2 ^ 93 : ℚ) ^ n)⁻¹ := by
            gcongr
            norm_num
        _ = 2 ^ (93 * (-n : ℤ)) := by
            rw [← pow_mul, ← zpow_natCast, ← zpow_neg]
            congr 1
            push_cast
            ring
        _ < 2 ^ (28 * b) := zpow_lt_zpow_right₀ (by norm_num) (hneg ha)
        _ = (2 ^ b) ^ 28 := by rw [← zpow_natCast, ← zpow_mul, mul_comm]; rfl
    exact lt_of_pow_lt_pow_left₀ 28 (by positivity) hpower

theorem exponent_le {code : ℕ} (h : code < infinityCode) :
    (Dyadic.ofCode code).exponent ≤ 971 := by
  unfold Dyadic.ofCode
  unfold infinityCode at h
  dsimp only [Nat.pow_eq] at *
  split_ifs <;> dsimp only <;> omega

/-- The numbers of an interval are far from the ends of the range in which powers of ten are
computed. -/
theorem contains_bounds {code : ℕ} (hcode : code ≠ 0) (hfinite : code < infinityCode) {x : ℚ}
    (h : (Rounding.ofCode code).Contains x) : (10 : ℚ) ^ (-401 : ℤ) < x ∧ x < 10 ^ (400 : ℤ) := by
  obtain ⟨y, rfl⟩ := exists_eq_mul_zpow x (Dyadic.ofCode code).exponent
  obtain ⟨hlow, hhigh⟩ := h.bounds hcode
  have hexponent := exponent_ge code
  have hexponent' := exponent_le hfinite
  have hpos : (1 : ℚ) ≤ (Dyadic.ofCode code).mantissa := by exact_mod_cast mantissa_pos hcode
  have hlt : ((Dyadic.ofCode code).mantissa + 1 : ℚ) ≤ 2 ^ (53 : ℤ) := by
    exact_mod_cast mantissa_lt code
  have htwo : (1 : ℚ) ≤ 2 := by norm_num
  constructor
  · calc (10 : ℚ) ^ (-401 : ℤ) < 2 ^ (-1075 : ℤ) :=
          ten_zpow_lt (fun h => absurd h (by decide)) fun _ => by decide
      _ ≤ 2 ^ (-1 + (Dyadic.ofCode code).exponent) := zpow_le_zpow_right₀ htwo (by omega)
      _ = 1 / 2 * 2 ^ (Dyadic.ofCode code).exponent := by
          rw [zpow_add₀ (by norm_num), zpow_neg_one, one_div]
      _ ≤ y * 2 ^ (Dyadic.ofCode code).exponent := by
          gcongr
          linarith
  · calc y * 2 ^ (Dyadic.ofCode code).exponent
        ≤ 2 ^ (53 : ℤ) * 2 ^ (Dyadic.ofCode code).exponent := by
          gcongr
          linarith
      _ = 2 ^ (53 + (Dyadic.ofCode code).exponent) := (zpow_add₀ (by norm_num) _ _).symm
      _ ≤ 2 ^ (1024 : ℤ) := zpow_le_zpow_right₀ htwo (by omega)
      _ < 10 ^ (400 : ℤ) := by
          have hinverse : (10 : ℚ) ^ (-400 : ℤ) < 2 ^ (-1024 : ℤ) :=
            ten_zpow_lt (fun h => absurd h (by decide)) fun _ => by decide
          rw [zpow_neg, zpow_neg] at hinverse
          exact (inv_lt_inv₀ (by positivity) (by positivity)).1 hinverse

/-- The last grid tried is finer than half of the last place. -/
theorem ten_zpow_decimalBound_lt {code : ℕ} (hcode : code ≠ 0) (hfinite : code < infinityCode) :
    (10 : ℚ) ^ (decimalBound code - 24) < 2 ^ ((Dyadic.ofCode code).exponent - 1) := by
  have hexponent := exponent_ge code
  have hexponent' := exponent_le hfinite
  have hlog : (Dyadic.ofCode code).mantissa.log2 < 53 :=
    (Nat.log2_lt (mantissa_pos hcode).ne').2 (mantissa_lt code)
  unfold decimalBound
  dsimp only
  generalize (Dyadic.ofCode code).mantissa.log2 = log at *
  generalize (Dyadic.ofCode code).exponent = E at *
  cases hbits : E + log + 1 with
  | ofNat bits =>
    rw [Int.ofNat_eq_natCast] at hbits
    dsimp only
    apply ten_zpow_lt <;> omega
  | negSucc bits =>
    dsimp only
    apply ten_zpow_lt <;> omega

/-! ## The decimal that is found -/

/-- The upper half of the interval is longer than a grid that is finer than half of the last
place. -/
theorem Rounding.value_onGrid {code : ℕ} {exponent : ℤ}
    (h : (10 : ℚ) ^ exponent < 2 ^ ((Dyadic.ofCode code).exponent - 1)) :
    0 < ((Rounding.ofCode code).onGrid exponent).unit ∧
      ((Rounding.ofCode code).onGrid exponent).low ≤
        ((Rounding.ofCode code).onGrid exponent).value ∧
      ((Rounding.ofCode code).onGrid exponent).value +
        ((Rounding.ofCode code).onGrid exponent).unit <
          ((Rounding.ofCode code).onGrid exponent).high := by
  obtain ⟨factor, unit, hfactor, hunit, hpower, heq⟩ := Rounding.ofCode_eq code
  have hunit' : (0 : ℚ) < unit := by exact_mod_cast hunit
  have hstep : (10 : ℚ) ^ exponent * unit < 2 * factor := by
    have hhalf : (2 : ℚ) ^ ((Dyadic.ofCode code).exponent - 1) = 2 * factor / unit := by
      rw [zpow_sub₀ (by norm_num), zpow_one, ← hpower]
      ring
    rwa [hhalf, lt_div_iff₀ hunit'] at h
  have hle : (4 * (Dyadic.ofCode code).mantissa - lowerGap code) * factor ≤
      4 * (Dyadic.ofCode code).mantissa * factor := Nat.mul_le_mul_right _ (Nat.sub_le _ _)
  rw [heq]
  cases exponent with
  | ofNat k =>
    dsimp only [onGrid, Nat.pow_eq]
    refine ⟨by positivity, hle, ?_⟩
    have hstep' : unit * 10 ^ k < 2 * factor := by
      rw [Int.ofNat_eq_natCast, zpow_natCast, mul_comm] at hstep
      exact_mod_cast hstep
    rw [Nat.add_mul]
    omega
  | negSucc k =>
    dsimp only [onGrid, Nat.pow_eq]
    refine ⟨hunit, Nat.mul_le_mul_right _ hle, ?_⟩
    have hstep' : unit < 2 * factor * 10 ^ (k + 1) := by
      rw [zpow_negSucc, inv_mul_eq_div, div_lt_iff₀ (by positivity)] at hstep
      exact_mod_cast hstep
    rw [Nat.add_mul, Nat.add_mul]
    omega

/-- The shortest decimal of a finite magnitude above zero lies in its interval. -/
theorem contains_shortest (t : Tie) {code : ℕ} (hcode : code ≠ 0) (hfinite : code < infinityCode) :
    (Rounding.ofCode code).Contains
      ((shortest t code).digits * 10 ^ (shortest t code).exponent) := by
  obtain ⟨hunit, hlow, hhigh⟩ :=
    Rounding.value_onGrid (ten_zpow_decimalBound_lt hcode hfinite)
  have hfound := Rounding.nearestWhole?_isSome t hunit hlow hhigh
  rw [← Rounding.contains_onGrid, ← Rounding.holds_iff, shortest, if_neg hcode]
  exact Rounding.coarsest_spec ⟨24, by decide, hfound⟩

theorem shortest_digits_ne_zero (t : Tie) {code : ℕ} (hcode : code ≠ 0)
    (hfinite : code < infinityCode) : (shortest t code).digits ≠ 0 := by
  intro hzero
  have hcontains := contains_shortest t hcode hfinite
  rw [hzero, Nat.cast_zero, zero_mul] at hcontains
  exact Rounding.not_contains_zero hcode hcontains

end ScriptMin.Number
