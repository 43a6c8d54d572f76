import Mathlib.Algebra.Order.Field.Power
import Mathlib.Data.Rat.Cast.Order
import Mathlib.Tactic.FieldSimp
import Mathlib.Tactic.Linarith
import Mathlib.Tactic.Positivity
import Mathlib.Tactic.Ring
import ScriptMin.Number.Binary64

/-!
# The code nearest to a rational number

Rounding works on quotients of natural numbers. Here the steps are related to the rational number
that the quotient is: the unit is the power of two that leaves 53 binary digits
(`unitExponent_eq`), and the multiple of it within half a unit is taken (`roundTo_eq`).
-/

namespace ScriptMin.Number

/-- A natural number no further than half a unit away is the rounded one, an even one in a tie. -/
theorem roundHalfEven_eq {n d m : ℕ} (hd : 0 < d) (hlow : 2 * (m * d) ≤ 2 * n + d)
    (hhigh : 2 * n ≤ 2 * (m * d) + d)
    (htie : 2 * (m * d) = 2 * n + d ∨ 2 * n = 2 * (m * d) + d → m % 2 = 0) :
    roundHalfEven n d = m := by
  have hn := Nat.div_add_mod n d
  have hr := Nat.mod_lt n hd
  have hle : n / d ≤ m := by
    by_contra hlt
    have : (m + 1) * d ≤ d * (n / d) := by
      rw [Nat.mul_comm]
      exact Nat.mul_le_mul_left d (by omega)
    rw [Nat.succ_mul] at this
    omega
  have hge : m ≤ n / d + 1 := by
    by_contra hlt
    have : d * (n / d) + d + d ≤ m * d := by
      calc d * (n / d) + d + d = (n / d + 2) * d := by ring
        _ ≤ m * d := Nat.mul_le_mul_right d (by omega)
    omega
  unfold roundHalfEven
  obtain hm | hm : m = n / d ∨ m = n / d + 1 := by omega
  · have hmd : m * d = d * (n / d) := by rw [hm, Nat.mul_comm]
    dsimp only
    split_ifs <;> omega
  · have hmd : m * d = d * (n / d) + d := by rw [hm]; ring
    dsimp only
    split_ifs <;> omega

/-- The quotient measured in a unit, as a quotient. -/
theorem roundTo_eq_roundHalfEven (n : ℕ) {d : ℕ} (hd : 0 < d) (exponent : ℤ) :
    ∃ n' d', 0 < d' ∧ roundTo n d exponent = roundHalfEven n' d' ∧
      (n' / d' : ℚ) = n / d / 2 ^ exponent := by
  cases exponent with
  | ofNat e =>
    refine ⟨n, d * 2 ^ e, by positivity, rfl, ?_⟩
    push_cast
    rw [div_div, Int.ofNat_eq_natCast, zpow_natCast]
  | negSucc e =>
    refine ⟨n * 2 ^ (e + 1), d, hd, rfl, ?_⟩
    push_cast
    rw [zpow_negSucc, div_inv_eq_mul]
    ring

theorem roundTo_eq {n d m : ℕ} (hd : 0 < d) {exponent : ℤ}
    (h : |(n / d : ℚ) / 2 ^ exponent - m| ≤ 1 / 2)
    (htie : |(n / d : ℚ) / 2 ^ exponent - m| = 1 / 2 → m % 2 = 0) :
    roundTo n d exponent = m := by
  obtain ⟨n', d', hd', heq, hquotient⟩ := roundTo_eq_roundHalfEven n hd exponent
  rw [← hquotient] at h htie
  have hpos : (0 : ℚ) < d' := by exact_mod_cast hd'
  have hscale : ∀ x : ℚ, (n' / d' : ℚ) = x ↔ (n' : ℚ) = x * d' := fun x => div_eq_iff hpos.ne'
  obtain ⟨hlow, hhigh⟩ := abs_le.1 h
  have hlow' : (m - 1 / 2 : ℚ) * d' ≤ n' := by
    rw [← le_div_iff₀ hpos]
    linarith
  have hhigh' : (n' : ℚ) ≤ (m + 1 / 2) * d' := by
    rw [← div_le_iff₀ hpos]
    linarith
  rw [heq]
  apply roundHalfEven_eq hd'
  · have : (2 * (m * d') : ℚ) ≤ 2 * n' + d' := by linarith
    exact_mod_cast this
  · have : (2 * n' : ℚ) ≤ 2 * (m * d') + d' := by linarith
    exact_mod_cast this
  · rintro (hlower | hupper)
    · have hcast : (2 * (m * d') : ℚ) = 2 * n' + d' := by exact_mod_cast hlower
      have hhalf : (n' / d' : ℚ) - m = -(1 / 2) := by
        rw [sub_eq_iff_eq_add, hscale]
        linarith
      exact htie (by rw [hhalf]; norm_num)
    · have hcast : (2 * n' : ℚ) = 2 * (m * d') + d' := by exact_mod_cast hupper
      have hhalf : (n' / d' : ℚ) - m = 1 / 2 := by
        rw [sub_eq_iff_eq_add, hscale]
        linarith
      exact htie (by rw [hhalf]; norm_num)

/-- A quotient lies between the powers of two that the logarithms give. -/
theorem quotient_bounds {n d : ℕ} (hn : n ≠ 0) (hd : d ≠ 0) :
    (2 : ℚ) ^ ((n.log2 : ℤ) - d.log2 - 1) < n / d ∧
      (n / d : ℚ) < 2 ^ ((n.log2 : ℤ) - d.log2 + 1) := by
  have hpos : (0 : ℚ) < d := by exact_mod_cast Nat.pos_of_ne_zero hd
  have hn₁ : (2 ^ n.log2 : ℚ) ≤ n := by exact_mod_cast Nat.log2_self_le hn
  have hn₂ : (n : ℚ) < 2 ^ (n.log2 + 1) := by exact_mod_cast Nat.lt_log2_self
  have hd₁ : (2 ^ d.log2 : ℚ) ≤ d := by exact_mod_cast Nat.log2_self_le hd
  have hd₂ : (d : ℚ) < 2 ^ (d.log2 + 1) := by exact_mod_cast Nat.lt_log2_self
  constructor
  · rw [lt_div_iff₀ hpos]
    calc (2 : ℚ) ^ ((n.log2 : ℤ) - d.log2 - 1) * d
        < 2 ^ ((n.log2 : ℤ) - d.log2 - 1) * 2 ^ (d.log2 + 1) := by gcongr
      _ = 2 ^ n.log2 := by
        rw [← zpow_natCast, ← zpow_natCast, ← zpow_add₀ (by norm_num)]
        congr 1
        push_cast
        ring
      _ ≤ n := hn₁
  · rw [div_lt_iff₀ hpos]
    calc (n : ℚ) < 2 ^ (n.log2 + 1) := hn₂
      _ = 2 ^ ((n.log2 : ℤ) - d.log2 + 1) * 2 ^ d.log2 := by
        rw [← zpow_natCast, ← zpow_natCast, ← zpow_add₀ (by norm_num)]
        congr 1
        push_cast
        ring
      _ ≤ 2 ^ ((n.log2 : ℤ) - d.log2 + 1) * d := by gcongr

/-- The test whether a quotient keeps 53 binary digits before the point of a unit. -/
theorem short_iff (n : ℕ) {d : ℕ} (hd : 0 < d) (guess : ℤ) :
    (match guess with
      | .ofNat e => decide (n / (d * Nat.pow 2 e) < Nat.pow 2 53)
      | .negSucc e => decide (n * Nat.pow 2 (e + 1) / d < Nat.pow 2 53)) = true ↔
      (n / d : ℚ) < 2 ^ (53 + guess) := by
  have hpos : (0 : ℚ) < d := by exact_mod_cast hd
  cases guess with
  | ofNat e =>
    have hunit : 0 < d * 2 ^ e := by positivity
    have hpower : (2 : ℚ) ^ (53 + Int.ofNat e) = 2 ^ 53 * 2 ^ e := by
      rw [zpow_add₀ (by norm_num), Int.ofNat_eq_natCast, zpow_natCast]
      rfl
    rw [hpower, div_lt_iff₀ hpos, mul_right_comm, mul_assoc]
    dsimp only [Nat.pow_eq]
    rw [decide_eq_true_iff, Nat.div_lt_iff_lt_mul hunit]
    exact_mod_cast Iff.rfl
  | negSucc e =>
    have hpower : (2 : ℚ) ^ (53 + Int.negSucc e) = 2 ^ 53 / 2 ^ (e + 1) := by
      rw [zpow_add₀ (by norm_num), zpow_negSucc, div_eq_mul_inv]
      rfl
    rw [hpower, div_lt_div_iff₀ hpos (by positivity)]
    dsimp only [Nat.pow_eq]
    rw [decide_eq_true_iff, Nat.div_lt_iff_lt_mul hd]
    exact_mod_cast Iff.rfl

/-- The unit leaves 53 binary digits before the point, if it is not the least unit. -/
theorem unitExponent_eq {n d : ℕ} (hn : n ≠ 0) (hd : d ≠ 0) {exponent : ℤ}
    (hle : -1074 ≤ exponent) (hlt : (n / d : ℚ) < 2 ^ (53 + exponent))
    (hge : exponent = -1074 ∨ 2 ^ (52 + exponent) ≤ (n / d : ℚ)) :
    unitExponent n d = exponent := by
  obtain ⟨hlow, hhigh⟩ := quotient_bounds hn hd
  have hone : (1 : ℚ) < 2 := by norm_num
  have hshort := short_iff n (Nat.pos_of_ne_zero hd) ((n.log2 : ℤ) - d.log2 - 53)
  have hunder : (n.log2 : ℤ) - d.log2 - 1 < 53 + exponent :=
    (zpow_lt_zpow_iff_right₀ hone).1 (hlow.trans hlt)
  have hover : exponent = -1074 ∨ 52 + exponent < (n.log2 : ℤ) - d.log2 + 1 :=
    hge.imp_right fun h => (zpow_lt_zpow_iff_right₀ hone).1 (h.trans_lt hhigh)
  unfold unitExponent
  dsimp only
  split_ifs with hdigits
  · have hbelow := hshort.1 hdigits
    have : exponent = -1074 ∨ 52 + exponent < 53 + ((n.log2 : ℤ) - d.log2 - 53) :=
      hge.imp_right fun h => (zpow_lt_zpow_iff_right₀ hone).1 (h.trans_lt hbelow)
    omega
  · have habove := not_lt.1 fun h => hdigits (hshort.2 h)
    have : 53 + ((n.log2 : ℤ) - d.log2 - 53) < 53 + exponent :=
      (zpow_lt_zpow_iff_right₀ hone).1 (habove.trans_lt hlt)
    omega

end ScriptMin.Number
