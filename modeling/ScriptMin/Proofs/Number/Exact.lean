import Mathlib.Data.Nat.Cast.Field
import ScriptMin.Number.Numeral
import ScriptMin.Proofs.Number.Shortest

/-!
# Exact numbers

A number is unpacked into a mantissa and an exponent before it is calculated with, and packed again
after it was rounded. Unpacking reads the magnitude off a code and packing gives the code back
(`unpack_code`, `pack_code`). Below `2 ^ 53` sums and products of natural numbers are exact
(`IsNatural.add`, `IsNatural.mul`), as rounding has nothing to leave out.
-/

namespace ScriptMin.Number

open Float.Model Float.Model.UnpackedFloat

/-! ## Codes and unpacked numbers -/

/-- The magnitude with a code, unpacked. -/
def unpacked (code : ℕ) : UnpackedFloat :=
  if h : code = 0 then .zero .positive
  else .finite .positive (Dyadic.ofCode code).mantissa (Dyadic.ofCode code).exponent
    (mantissa_pos h)

/-- The fields of an encoding. -/
theorem toNat_fields (b : BitVec 64) :
    (@unpackMantissa Format.binary64 b).toNat = b.toNat % 2 ^ 52 ∧
      (@unpackExponent Format.binary64 b).toNat = b.toNat / 2 ^ 52 % 2 ^ 11 ∧
      (@unpackSign Format.binary64 b).toNat = b.toNat / 2 ^ 63 % 2 := by
  refine ⟨?_, ?_, ?_⟩
  · simp [unpackMantissa]
  · simp [unpackExponent, Nat.shiftRight_eq_div_pow]
  · change (b.extractLsb 63 63).toNat = _
    simp [Nat.shiftRight_eq_div_pow]

/-- The encoding that is put together from a sign, an exponent and a mantissa. -/
theorem toNat_packComponents (exponent : BitVec 11) (mantissa : BitVec 52) :
    (packComponents Format.binary64 .positive exponent mantissa).toNat =
      exponent.toNat * 2 ^ 52 + mantissa.toNat := by
  have hmantissa := mantissa.isLt
  rw [packComponents, Sign.toBitVec, BitVec.toNat_append, BitVec.toNat_append,
    ← Nat.shiftLeft_add_eq_or_of_lt hmantissa, Nat.shiftLeft_eq, BitVec.toNat_zero,
    Nat.zero_shiftLeft, Nat.zero_or]

/-- A finite number is its mantissa and its exponent. -/
theorem finite_congr {m m' : ℕ} {e e' : ℤ} {h : 0 < m} {h' : 0 < m'} (hm : m = m') (he : e = e') :
    UnpackedFloat.finite .positive m e h = .finite .positive m' e' h' := by
  subst hm he
  rfl

theorem unpacked_of_ne_zero {code : ℕ} (h : code ≠ 0) :
    unpacked code = .finite .positive (Dyadic.ofCode code).mantissa
      (Dyadic.ofCode code).exponent (mantissa_pos h) :=
  dif_neg h

/-- The magnitude of a code is what is unpacked. -/
theorem unpack_code {b : BitVec 64} (h : b.toNat < infinityCode) :
    UnpackedFloat.unpack Format.binary64 b = unpacked b.toNat := by
  obtain ⟨hmantissa, hexponent, hsign⟩ := toNat_fields b
  have hbound : b.toNat < 2047 * 2 ^ 52 := h
  have hpositive : Sign.ofBitVec (@unpackSign Format.binary64 b) = .positive := by
    refine if_pos (BitVec.eq_of_toNat_eq ?_)
    rw [hsign, BitVec.toNat_zero]
    omega
  have hones : @unpackExponent Format.binary64 b ≠ -1#11 := by
    intro hones
    have htop : b.toNat / 2 ^ 52 % 2 ^ 11 = 2047 := by rw [← hexponent, hones]; rfl
    omega
  have hzero : @unpackExponent Format.binary64 b = 0#11 ↔ b.toNat < 2 ^ 52 := by
    rw [← BitVec.toNat_inj, hexponent, BitVec.toNat_zero]
    omega
  have hnone : @unpackMantissa Format.binary64 b = 0#52 ↔ b.toNat % 2 ^ 52 = 0 := by
    rw [← BitVec.toNat_inj, hmantissa, BitVec.toNat_zero]
  have hbias : Format.binary64.exponentBias = 1023 := rfl
  unfold UnpackedFloat.unpack
  dsimp only
  rw [hpositive, hbias, if_neg hones]
  by_cases hsmall : b.toNat < 2 ^ 52
  · rw [if_pos (hzero.2 hsmall)]
    by_cases hcode : b.toNat = 0
    · rw [dif_pos (hnone.2 (by omega)), unpacked, dif_pos hcode]
    · rw [dif_neg (fun hm => hcode (by have := hnone.1 hm; omega)), unpacked_of_ne_zero hcode]
      apply finite_congr
      · rw [hmantissa, ofCode_of_lt hsmall]
        exact Nat.mod_eq_of_lt hsmall
      · rw [hexponent, ofCode_of_lt hsmall]
        dsimp only
        omega
  · rw [if_neg (mt hzero.1 hsmall), unpacked_of_ne_zero (by omega)]
    apply finite_congr
    · rw [BitVec.toNat_append, ← Nat.shiftLeft_add_eq_or_of_lt (BitVec.isLt _), Nat.shiftLeft_eq,
        hmantissa, ofCode_of_le (Nat.le_of_not_lt hsmall)]
      exact Nat.add_comm _ _
    · rw [hexponent, ofCode_of_le (Nat.le_of_not_lt hsmall)]
      dsimp only
      omega

/-- A rounded mantissa and its exponent are packed to the code that counts them. -/
theorem pack_finite {M : ℕ} {E : ℤ} (hpos : 0 < M) (hlt : M < 2 ^ 53) (hlow : -1074 ≤ E)
    (hhigh : E ≤ 971) (hnormal : E = -1074 ∨ 2 ^ 52 ≤ M) :
    (UnpackedFloat.pack Format.binary64 (.finite .positive M E hpos)).toNat =
      (E + 1074).toNat * 2 ^ 52 + M := by
  have hbias : Format.binary64.exponentBias = 1023 := rfl
  have hbits : Format.binary64.mantissaBits = 53 := rfl
  unfold UnpackedFloat.pack
  dsimp only
  rw [hbias, hbits, if_neg (by omega)]
  split_ifs with hlog
  · have hlarge : 2 ^ 52 ≤ M := (Nat.le_log2 hpos.ne').1 (by omega)
    rw [toNat_packComponents, BitVec.toNat_ofNat, BitVec.toNat_ofNat]
    omega
  · have hsmall : M < 2 ^ 52 := by
      refine (Nat.log2_lt hpos.ne').1 ?_
      have := (Nat.log2_lt hpos.ne').2 hlt
      omega
    rw [toNat_packComponents, BitVec.toNat_ofNat, BitVec.toNat_ofNat]
    omega

/-- Packing gives the code back. -/
theorem pack_code {code : ℕ} (h : code < infinityCode) :
    (UnpackedFloat.pack Format.binary64 (unpacked code)).toNat = code := by
  by_cases hcode : code = 0
  · subst hcode
    rfl
  · rw [unpacked_of_ne_zero hcode, pack_finite _ (mantissa_lt code) (exponent_ge code)
      (exponent_le h) (exponent_eq_or code), code_eq]

/-! ## Codes and numbers -/

/-- The unpacked magnitude of a code is packed to the number with this code. -/
theorem ofModel_pack {code : ℕ} (h : code < infinityCode) :
    Float.ofModel (Float.Model.pack (unpacked code)) = ofCode false code := by
  have hbound : code < 2047 * 2 ^ 52 := h
  have hbits : (UInt64.ofNat code).toBitVec.toNat = code := by
    change code % 2 ^ 64 = code
    omega
  have hunpack : UnpackedFloat.unpack Format.binary64 (UInt64.ofNat code).toBitVec =
      unpacked code := by
    rw [unpack_code (hbits.symm ▸ h), hbits]
  change _ = Float.ofModel (Float.Model.pack _)
  rw [← hunpack]
  rfl

theorem toBits_ofCode {code : ℕ} (h : code < infinityCode) :
    (ofCode false code).toBits.toNat = code := by
  rw [← ofModel_pack h]
  exact pack_code h

theorem unpack_ofCode {code : ℕ} (h : code < infinityCode) :
    (ofCode false code).toModel.unpack = unpacked code := by
  have hcode : (ofCode false code).toModel.toBits.toBitVec.toNat = code := toBits_ofCode h
  have hunpack := unpack_code (b := (ofCode false code).toModel.toBits.toBitVec) (hcode.symm ▸ h)
  rw [hcode] at hunpack
  exact hunpack

theorem eq_of_toBits {u v : Float} (h : u.toBits.toNat = v.toBits.toNat) : u = v := by
  obtain ⟨⟨ubits, hu⟩⟩ := u
  obtain ⟨⟨vbits, hv⟩⟩ := v
  obtain rfl : ubits = vbits := UInt64.toNat_inj.1 h
  rfl

/-- A finite number with a clear sign bit is the number of its code. -/
theorem ofCode_magnitudeCode {v : Float} (hfinite : isFinite v) (hsign : isNegative v = false) :
    ofCode false (magnitudeCode v) = v := by
  have hcode : magnitudeCode v < infinityCode := of_decide_eq_true hfinite
  have hlt : ¬ 2 ^ 63 ≤ v.toBits.toNat := of_decide_eq_false hsign
  apply eq_of_toBits
  rw [toBits_ofCode hcode]
  exact Nat.mod_eq_of_lt (Nat.lt_of_not_le hlt)

/-! ## Rounding without a rest -/

/-- Shifting digits out that are all zero leaves nothing behind. -/
theorem shiftRight_exact (m k : ℕ) :
    (⟨m * 2 ^ k, false, false⟩ : ExtendedMantissa) >>> k = ⟨m, false, false⟩ := by
  induction k generalizing m with
  | zero => rw [Nat.pow_zero, Nat.mul_one]; rfl
  | succ k ih =>
    have hmul : m * 2 ^ (k + 1) = m * 2 * 2 ^ k := by ring
    change ((⟨m * 2 ^ (k + 1), false, false⟩ : ExtendedMantissa) >>> k).shiftRightOne = _
    rw [hmul, ih]
    simp [ExtendedMantissa.shiftRightOne]

theorem log2_mul_two_pow {m : ℕ} (h : m ≠ 0) (k : ℕ) : (m * 2 ^ k).log2 = m.log2 + k := by
  rw [Nat.log2_eq_iff (by positivity)]
  constructor
  · rw [pow_add]
    exact Nat.mul_le_mul_right _ (Nat.log2_self_le h)
  · rw [Nat.add_right_comm, pow_add]
    exact Nat.mul_lt_mul_of_pos_right Nat.lt_log2_self (by positivity)

/-- The exponent that a magnitude which fits is rounded to is its own. -/
theorem targetExponent_exact {M : ℕ} {E : ℤ} (hpos : 0 < M) (hlt : M < 2 ^ 53)
    (hlow : -1074 ≤ E) (hnormal : E = -1074 ∨ 2 ^ 52 ≤ M) (k : ℕ) :
    Format.binary64.targetExponent (totalExponent (M * 2 ^ k) (E - k)) = E := by
  have hbits : Format.binary64.mantissaBits = 53 := rfl
  have hleast : Format.binary64.minExponent = -1074 := rfl
  have hlog : M.log2 < 53 := (Nat.log2_lt hpos.ne').2 hlt
  have hlog' : E = -1074 ∨ 52 ≤ M.log2 := hnormal.imp_right (Nat.le_log2 hpos.ne').2
  rw [Format.targetExponent, totalExponent, hbits, hleast, log2_mul_two_pow hpos.ne']
  omega

theorem shiftToTargetExponent_exact {M : ℕ} {E : ℤ} (hpos : 0 < M) (hlt : M < 2 ^ 53)
    (hlow : -1074 ≤ E) (hnormal : E = -1074 ∨ 2 ^ 52 ≤ M) (k : ℕ) :
    shiftToTargetExponent Format.binary64 (M * 2 ^ k) (E - k) .exact = (⟨M, false, false⟩, E) := by
  have hshift : (E - (E - k)).toNat = k := by omega
  rw [shiftToTargetExponent, targetExponent_exact hpos hlt hlow hnormal, shiftToExponent]
  rw [hshift, ExtendedMantissa.ofMantissaAndAccuracy, shiftRight_exact, sub_add_cancel]

/-- A magnitude that fits is rounded to itself. -/
theorem roundWithAccuracy_exact {M : ℕ} {E : ℤ} (hpos : 0 < M) (hlt : M < 2 ^ 53)
    (hlow : -1074 ≤ E) (hnormal : E = -1074 ∨ 2 ^ 52 ≤ M) (k : ℕ) :
    roundWithAccuracy Format.binary64 .positive (M * 2 ^ k) (E - k) .exact =
      .finite .positive M E hpos := by
  have hagain := shiftToTargetExponent_exact hpos hlt hlow hnormal 0
  rw [pow_zero, mul_one, Nat.cast_zero, sub_zero] at hagain
  have hrounded : (⟨M, false, false⟩ : ExtendedMantissa).roundedMantissa = M := rfl
  rw [roundWithAccuracy, shiftToTargetExponent_exact hpos hlt hlow hnormal]
  dsimp only
  rw [hrounded, hagain]
  exact dif_neg hpos.ne'

/-! ## Natural numbers -/

/-- How often a natural number has to be doubled for a mantissa of 53 digits. -/
def doublings (n : ℕ) : ℕ := 52 - n.log2

theorem doublings_spec {n : ℕ} (hn : n ≠ 0) (hlt : n < 2 ^ 53) :
    n.log2 + doublings n = 52 ∧ 2 ^ 52 ≤ n * 2 ^ doublings n ∧ n * 2 ^ doublings n < 2 ^ 53 := by
  have hlog : n.log2 < 53 := (Nat.log2_lt hn).2 hlt
  have hsum : n.log2 + doublings n = 52 := by
    rw [doublings]
    omega
  have hM : (n * 2 ^ doublings n).log2 = 52 := by rw [log2_mul_two_pow hn, hsum]
  have hM₀ : n * 2 ^ doublings n ≠ 0 := by positivity
  exact ⟨hsum, hM ▸ Nat.log2_self_le hM₀, (Nat.log2_lt hM₀).1 (by omega)⟩

/-- A natural number that fits is doubled until its mantissa has 53 digits. -/
theorem nearestCode_natural {n : ℕ} (hn : n ≠ 0) (hlt : n < 2 ^ 53) :
    nearestCode n 1 < infinityCode ∧ nearestCode n 1 ≠ 0 ∧
      Dyadic.ofCode (nearestCode n 1) = ⟨n * 2 ^ doublings n, -doublings n⟩ := by
  obtain ⟨hsum, hlow, hhigh⟩ := doublings_spec hn hlt
  generalize hj : doublings n = j at *
  have hfinite : (1074 - j) * 2 ^ 52 + n * 2 ^ j < infinityCode := by
    change _ < 2047 * 2 ^ 52
    omega
  have hcode : (1074 - j) * 2 ^ 52 + n * 2 ^ j ≠ 0 := by omega
  have hmagnitude : Dyadic.ofCode ((1074 - j) * 2 ^ 52 + n * 2 ^ j) = ⟨n * 2 ^ j, -j⟩ := by
    rw [ofCode_of_le (by omega)]
    congr 1 <;> omega
  have hvalue := Rounding.contains_self hcode
  rw [hmagnitude] at hvalue
  have hn' : ((n * 2 ^ j : ℕ) : ℚ) * 2 ^ (-j : ℤ) = n / (1 : ℕ) := by
    rw [zpow_neg, zpow_natCast]
    push_cast
    field_simp
  rw [nearestCode_eq hcode hfinite one_ne_zero (hn' ▸ hvalue)]
  exact ⟨hfinite, hcode, hmagnitude⟩

theorem unpacked_natural {n : ℕ} (hn : n ≠ 0) (hlt : n < 2 ^ 53) :
    unpacked (nearestCode n 1) =
      .finite .positive (n * 2 ^ doublings n) (-doublings n)
        (Nat.mul_pos (Nat.pos_of_ne_zero hn) (Nat.two_pow_pos _)) := by
  obtain ⟨-, hcode, hmagnitude⟩ := nearestCode_natural hn hlt
  rw [unpacked_of_ne_zero hcode]
  exact finite_congr (by rw [hmagnitude]) (by rw [hmagnitude])

/-- A natural number that was doubled often enough is rounded to itself. -/
theorem roundWithAccuracy_natural {n j : ℕ} (hn : n ≠ 0) (hlt : n < 2 ^ 53)
    (hj : doublings n ≤ j) :
    roundWithAccuracy Format.binary64 .positive (n * 2 ^ j) (-j) .exact =
      unpacked (nearestCode n 1) := by
  obtain ⟨hsum, hlow, hhigh⟩ := doublings_spec hn hlt
  obtain ⟨k, rfl⟩ := Nat.exists_eq_add_of_le hj
  have hround := roundWithAccuracy_exact (M := n * 2 ^ doublings n) (E := -doublings n)
    (by positivity) hhigh (by omega) (.inr hlow) k
  rw [unpacked_natural hn hlt, ← hround, pow_add, mul_assoc]
  congr 1
  push_cast
  ring

/-- Doubling a mantissa on the way to a lower exponent. -/
theorem decreaseExponent_natural (n i j : ℕ) :
    decreaseExponent (n * 2 ^ j) (-j) (-i) = (n * 2 ^ max i j, -((max i j : ℕ) : ℤ)) := by
  have hshift : (-(j : ℤ) - -i).toNat = max i j - j := by omega
  rw [decreaseExponent, hshift, Nat.shiftLeft_eq, mul_assoc, ← pow_add,
    Nat.add_sub_cancel' (le_max_right i j)]
  exact Prod.ext rfl (by dsimp only; omega)

/-- A natural number is rounded to itself, however often it was doubled. -/
theorem round_natural {n : ℕ} (hn : n ≠ 0) (hlt : n < 2 ^ 53) (j : ℕ) :
    UnpackedFloat.round Format.binary64 .positive (n * 2 ^ j) (-j) =
      unpacked (nearestCode n 1) := by
  obtain ⟨hsum, hlow, hhigh⟩ := doublings_spec hn hlt
  have hbits : Format.binary64.mantissaBits = 53 := rfl
  have hleast : Format.binary64.minExponent = -1074 := rfl
  have htarget : Format.binary64.targetExponent (totalExponent (n * 2 ^ j) (-j)) =
      -doublings n := by
    rw [Format.targetExponent, totalExponent, hbits, hleast, log2_mul_two_pow hn]
    omega
  unfold UnpackedFloat.round
  rw [htarget]
  dsimp only
  rw [decreaseExponent_natural]
  exact roundWithAccuracy_natural hn hlt (le_max_left _ _)

theorem normalize_natural {n : ℕ} (hn : n ≠ 0) (hlt : n < 2 ^ 53) (j : ℕ) :
    normalize Format.binary64 (n * 2 ^ j : ℕ) (-j) .positive = unpacked (nearestCode n 1) := by
  have hpos : compare ((n * 2 ^ j : ℕ) : ℤ) 0 = .gt :=
    compare_gt_iff_gt.2 (by exact_mod_cast Nat.pos_of_ne_zero (by positivity))
  rw [UnpackedFloat.normalize, hpos]
  exact round_natural hn hlt j

theorem unpacked_zero : unpacked (nearestCode 0 1) = .zero .positive := rfl

/-- The sum of natural numbers is exact. -/
theorem add_natural {a b : ℕ} (h : a + b < 2 ^ 53) :
    UnpackedFloat.add Format.binary64 (unpacked (nearestCode a 1)) (unpacked (nearestCode b 1)) =
      unpacked (nearestCode (a + b) 1) := by
  by_cases ha : a = 0
  · subst ha
    rw [unpacked_zero, Nat.zero_add]
    by_cases hb : b = 0
    · subst hb
      rfl
    · rw [unpacked_natural hb (by omega)]
      rfl
  by_cases hb : b = 0
  · subst hb
    rw [unpacked_zero, Nat.add_zero, unpacked_natural ha (by omega)]
    rfl
  rw [unpacked_natural ha (by omega), unpacked_natural hb (by omega)]
  unfold UnpackedFloat.add
  dsimp only
  obtain ⟨j, hj⟩ : ∃ j : ℕ, min (-doublings a : ℤ) (-doublings b) = -j :=
    ⟨max (doublings a) (doublings b), by omega⟩
  have hja : max j (doublings a) = j := by omega
  have hjb : max j (doublings b) = j := by omega
  rw [hj, decreaseExponent_natural, decreaseExponent_natural, hja, hjb]
  have hsum : Sign.positive.apply ((a * 2 ^ j : ℕ) : ℤ) +
      Sign.positive.apply ((b * 2 ^ j : ℕ) : ℤ) = ((a + b) * 2 ^ j : ℕ) := by
    rw [Nat.add_mul]
    rfl
  dsimp only
  rw [hsum]
  exact normalize_natural (by omega) h j

/-- The product of natural numbers is exact. -/
theorem mul_natural {a b : ℕ} (ha : a < 2 ^ 53) (hb : b < 2 ^ 53) (h : a * b < 2 ^ 53) :
    UnpackedFloat.mul Format.binary64 (unpacked (nearestCode a 1)) (unpacked (nearestCode b 1)) =
      unpacked (nearestCode (a * b) 1) := by
  by_cases ha₀ : a = 0
  · subst ha₀
    rw [unpacked_zero, Nat.zero_mul]
    by_cases hb₀ : b = 0
    · subst hb₀
      rfl
    · rw [unpacked_natural hb₀ hb]
      rfl
  by_cases hb₀ : b = 0
  · subst hb₀
    rw [unpacked_zero, Nat.mul_zero, unpacked_natural ha₀ ha]
    rfl
  have hab : a * b ≠ 0 := Nat.mul_ne_zero ha₀ hb₀
  have hlog : a.log2 + b.log2 ≤ (a * b).log2 := by
    rw [Nat.le_log2 hab, pow_add]
    exact Nat.mul_le_mul (Nat.log2_self_le ha₀) (Nat.log2_self_le hb₀)
  have hdoublings : doublings (a * b) ≤ doublings a + doublings b := by
    have hda := (doublings_spec ha₀ ha).1
    have hdb := (doublings_spec hb₀ hb).1
    have hdab := (doublings_spec hab h).1
    omega
  have hmantissa : a * 2 ^ doublings a * (b * 2 ^ doublings b) =
      a * b * 2 ^ (doublings a + doublings b) := by ring
  have hexponent : (-doublings a : ℤ) + -doublings b = -(doublings a + doublings b : ℕ) := by
    push_cast
    ring
  rw [unpacked_natural ha₀ ha, unpacked_natural hb₀ hb]
  unfold UnpackedFloat.mul
  dsimp only
  rw [hmantissa, hexponent]
  exact roundWithAccuracy_natural hab h hdoublings

/-! ## Natural numbers as numbers -/

theorem nearestCode_natural_lt {n : ℕ} (hlt : n < 2 ^ 53) : nearestCode n 1 < infinityCode := by
  by_cases hn : n = 0
  · subst hn
    decide
  · exact (nearestCode_natural hn hlt).1

theorem nearest_add {a b : ℕ} (h : a + b < 2 ^ 53) :
    nearest a 1 + nearest b 1 = nearest (a + b) 1 := by
  change Float.ofModel (Float.Model.pack (UnpackedFloat.add Format.binary64
    (ofCode false (nearestCode a 1)).toModel.unpack
    (ofCode false (nearestCode b 1)).toModel.unpack)) = _
  rw [unpack_ofCode (nearestCode_natural_lt (by omega)),
    unpack_ofCode (nearestCode_natural_lt (by omega)), add_natural h,
    ofModel_pack (nearestCode_natural_lt h), nearest]

theorem nearest_mul {a b : ℕ} (ha : a < 2 ^ 53) (hb : b < 2 ^ 53) (h : a * b < 2 ^ 53) :
    nearest a 1 * nearest b 1 = nearest (a * b) 1 := by
  change Float.ofModel (Float.Model.pack (UnpackedFloat.mul Format.binary64
    (ofCode false (nearestCode a 1)).toModel.unpack
    (ofCode false (nearestCode b 1)).toModel.unpack)) = _
  rw [unpack_ofCode (nearestCode_natural_lt ha), unpack_ofCode (nearestCode_natural_lt hb),
    mul_natural ha hb h, ofModel_pack (nearestCode_natural_lt h), nearest]

theorem toFloat_eq_nearest {n : ℕ} (h : n < 2 ^ 53) : n.toUInt64.toFloat = nearest n 1 := by
  have hn : n.toUInt64.toNat = n := by
    change n % 2 ^ 64 = n
    omega
  have hunpacked : UnpackedFloat.ofUInt64 Format.binary64 n.toUInt64 =
      unpacked (nearestCode n 1) := by
    rw [UnpackedFloat.ofUInt64, hn]
    by_cases hzero : n = 0
    · subst hzero
      rfl
    · have hnormal := normalize_natural hzero h 0
      rwa [pow_zero, mul_one] at hnormal
  rw [nearest, ← ofModel_pack (nearestCode_natural_lt h), ← hunpacked]
  rfl

/-- A literal below `2 ^ 53` is the number nearest to it. -/
theorem ofNat_eq_nearest {n : ℕ} (h : n < 2 ^ 53) : Float.ofNat n = nearest n 1 := by
  have hone : Float.ofBits 0x3FF0000000000000 = nearest 1 1 := rfl
  have hread : Float.ofNat n = n.toUInt64.toFloat * Float.ofBits 0x3FF0000000000000 :=
    dif_pos ⟨h, by decide⟩
  rw [hread, hone, toFloat_eq_nearest h, nearest_mul h (by decide) (by omega), Nat.mul_one]

/-- The quotient of a magnitude. -/
theorem Dyadic.quotient_spec (x : Dyadic) :
    0 < x.quotient.2 ∧ (x.quotient.1 / x.quotient.2 : ℚ) = x.mantissa * 2 ^ x.exponent := by
  obtain ⟨mantissa, exponent⟩ := x
  cases exponent with
  | ofNat e =>
    refine ⟨Nat.one_pos, ?_⟩
    dsimp only [quotient, Nat.pow_eq]
    rw [Int.ofNat_eq_natCast, zpow_natCast]
    push_cast
    rw [div_one]
  | negSucc e =>
    refine ⟨Nat.pow_pos (by decide), ?_⟩
    dsimp only [quotient, Nat.pow_eq]
    rw [zpow_negSucc, ← div_eq_mul_inv]
    push_cast
    rfl

/-- A finite magnitude that is whole is the one nearest to its value. -/
theorem nearest_wholeValue? {code n : ℕ} (hfinite : code < infinityCode)
    (h : wholeValue? code = some n) : nearest n 1 = ofCode false code := by
  obtain ⟨hpos, hquotient⟩ := (Dyadic.ofCode code).quotient_spec
  have hread : (if (Dyadic.ofCode code).quotient.1 % (Dyadic.ofCode code).quotient.2 = 0 then
      some ((Dyadic.ofCode code).quotient.1 / (Dyadic.ofCode code).quotient.2) else none) =
      some n := h
  obtain ⟨hwhole, hn⟩ := Option.ite_none_right_eq_some.1 hread
  obtain rfl := Option.some.inj hn
  have hpos' : ((Dyadic.ofCode code).quotient.2 : ℚ) ≠ 0 := by exact_mod_cast hpos.ne'
  by_cases hcode : code = 0
  · subst hcode
    have hzero : (Dyadic.ofCode 0).quotient.1 = 0 := rfl
    rw [hzero, Nat.zero_div]
    rfl
  · refine nearest_eq hcode hfinite one_ne_zero ?_
    rw [Nat.cast_div (Nat.dvd_of_mod_eq_zero hwhole) hpos', Nat.cast_one, div_one, hquotient]
    exact Rounding.contains_self hcode

end ScriptMin.Number
