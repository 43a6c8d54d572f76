import ScriptMin.Literal.Numeric
import ScriptMin.Number.Numeral
import ScriptMin.Proofs.Number.Shortest
import ScriptMin.Proofs.Token.Lexeme

/-!
# Decimal numerals

A `DecimalNumeral` is a decimal numeral by its parts: digits, a point with more digits, and an
exponent. The lexer takes its text as one token (`token_text`), and the number that is read depends
only on the rational number that the parts denote (`numberValue?_text`, `decimalNumber_eq`).
-/

namespace ScriptMin.Literal

open Source Number Lexer

/-- The parts of a decimal numeral. -/
structure DecimalNumeral where
  whole : List Char
  fraction : Option (List Char)
  exponent : Option Int

namespace DecimalNumeral

variable {d : DecimalNumeral}

/-- The digits before and after the point. -/
def digits (d : DecimalNumeral) : List Char :=
  d.whole ++ d.fraction.getD []

/-- The point with the digits after it. -/
def fractionText (d : DecimalNumeral) : List Char :=
  match d.fraction with
  | some digits => '.' :: digits
  | none => []

/-- The letter of the exponent with the exponent. -/
def scaleText (d : DecimalNumeral) : List Char :=
  match d.exponent with
  | some e => 'e' :: exponentText e
  | none => []

def text (d : DecimalNumeral) : List Char :=
  d.whole ++ (d.fractionText ++ d.scaleText)

/-- The power of ten that the digits are multiplied by. -/
def scale (d : DecimalNumeral) : Int :=
  d.exponent.getD 0 - (d.fraction.getD []).length

/-- A numeral has a digit before its exponent, and no zero in front of another digit. -/
structure WellFormed (d : DecimalNumeral) : Prop where
  isDigit : ∀ c ∈ d.digits, c.isDigit
  starts : d.whole = [] → d.fraction.getD [] ≠ []
  zero : d.whole.head? = some '0' → d.whole = ['0']

end DecimalNumeral

/-! ## Digits and exponents -/

theorem isDigit_toDigits (n : ℕ) : ∀ c ∈ Nat.toDigits 10 n, c.isDigit :=
  fun _ h => Nat.isDigit_of_mem_toDigits (by decide) (by decide) h

theorem decimalValue_toDigits (n : ℕ) : decimalValue (Nat.toDigits 10 n) = n :=
  Nat.ofDigitChars_ten_toDigits

theorem decimalValue_append_zeros (digits : List Char) (k : ℕ) :
    decimalValue (digits ++ List.replicate k '0') = decimalValue digits * 10 ^ k := by
  change Nat.ofDigitChars 10 _ 0 = Nat.ofDigitChars 10 digits 0 * 10 ^ k
  rw [Nat.ofDigitChars_append, Nat.ofDigitChars_replicate_zero, Nat.mul_comm]

theorem decimalValue_zeros_append (digits : List Char) (k : ℕ) :
    decimalValue (List.replicate k '0' ++ digits) = decimalValue digits := by
  change Nat.ofDigitChars 10 _ 0 = Nat.ofDigitChars 10 digits 0
  rw [Nat.ofDigitChars_append, Nat.ofDigitChars_replicate_zero, Nat.mul_zero]

theorem decimalValue_cons (c : Char) (digits : List Char) :
    decimalValue (c :: digits) = 10 ^ digits.length * (c.toNat - 48) + decimalValue digits := by
  change Nat.ofDigitChars 10 (c :: digits) 0 = _ + Nat.ofDigitChars 10 digits 0
  rw [Nat.ofDigitChars_cons, Nat.ofDigitChars_eq_ofDigitChars_zero, Nat.mul_zero, Nat.zero_add]
  rfl

theorem toNat_of_isDigit {c : Char} (h : c.isDigit) : 48 ≤ c.toNat ∧ c.toNat ≤ 57 := by
  rw [Char.isDigit, Bool.and_eq_true, decide_eq_true_iff, decide_eq_true_iff] at h
  exact h

theorem decimalValue_lt {digits : List Char} (h : ∀ c ∈ digits, c.isDigit) :
    decimalValue digits < 10 ^ digits.length := by
  induction digits with
  | nil => exact Nat.one_pos
  | cons c digits ih =>
    obtain ⟨hc, hdigits⟩ := List.forall_mem_cons.1 h
    have hvalue := toNat_of_isDigit hc
    rw [decimalValue_cons, List.length_cons, pow_succ]
    have := ih hdigits
    calc 10 ^ digits.length * (c.toNat - 48) + decimalValue digits
        < 10 ^ digits.length * (c.toNat - 48) + 10 ^ digits.length := by omega
      _ = 10 ^ digits.length * (c.toNat - 48 + 1) := by ring
      _ ≤ 10 ^ digits.length * 10 := Nat.mul_le_mul_left _ (by omega)

theorem decimalValue_dropWhile (digits : List Char) :
    decimalValue (digits.dropWhile (· == '0')) = decimalValue digits := by
  induction digits with
  | nil => rfl
  | cons c digits ih =>
    rw [List.dropWhile_cons]
    split
    case isTrue hc =>
      obtain rfl : c = '0' := by simpa using hc
      rw [ih, decimalValue_cons]
      simp
    case isFalse => rfl

/-- Digits without a zero in front have as many places as there are digits. -/
theorem le_decimalValue {digits : List Char} (h : ∀ c ∈ digits, c.isDigit)
    (hvalue : decimalValue digits ≠ 0) :
    (10 : ℚ) ^ ((digits.dropWhile (· == '0')).length - 1 : ℤ) ≤ decimalValue digits ∧
      (decimalValue digits : ℚ) < 10 ^ ((digits.dropWhile (· == '0')).length : ℤ) := by
  rw [← decimalValue_dropWhile] at hvalue ⊢
  have hdigits : ∀ c ∈ digits.dropWhile (· == '0'), c.isDigit :=
    fun c hc => h c ((List.dropWhile_sublist _).mem hc)
  have hhead := List.head?_dropWhile_not (· == '0') digits
  generalize digits.dropWhile (· == '0') = places at *
  match places with
  | [] => exact absurd rfl hvalue
  | c :: places =>
    have hc : c ≠ '0' := by simpa using hhead
    have hc₀ : c.toNat ≠ 48 := fun heq => hc (Char.toNat_inj.1 heq)
    have hdigit := toNat_of_isDigit (hdigits c List.mem_cons_self)
    constructor
    · have hle : 10 ^ places.length ≤ decimalValue (c :: places) := by
        rw [decimalValue_cons]
        exact le_trans (Nat.le_mul_of_pos_right _ (by omega)) (Nat.le_add_right _ _)
      rw [List.length_cons, Nat.cast_succ, add_sub_cancel_right, zpow_natCast]
      exact_mod_cast hle
    · rw [zpow_natCast]
      exact_mod_cast decimalValue_lt hdigits

/-- The longest text of a class ends where the next character is not of it. -/
theorem span_append {p : Char → Bool} {text rest : List Char} (h : ∀ c ∈ text, p c)
    (hrest : ¬ rest.head?.any p) : span p (text ++ rest) = ⟨text, rest⟩ := by
  have hnext : rest.takeWhile p = [] ∧ rest.dropWhile p = rest := by
    cases rest with
    | nil => exact ⟨rfl, rfl⟩
    | cons c rest => exact ⟨List.takeWhile_cons_of_neg hrest, List.dropWhile_cons_of_neg hrest⟩
  rw [span, List.takeWhile_append_of_pos h, List.dropWhile_append_of_pos h, hnext.1, hnext.2,
    List.append_nil]

theorem takeWhile_append_of_head? {p : Char → Bool} {text rest : List Char} (h : ∀ c ∈ text, p c)
    (hrest : ¬ rest.head?.any p) : (text ++ rest).takeWhile p = text :=
  congrArg Lexeme.text (span_append h hrest)

theorem dropWhile_append_of_head? {p : Char → Bool} {text rest : List Char} (h : ∀ c ∈ text, p c)
    (hrest : ¬ rest.head?.any p) : (text ++ rest).dropWhile p = rest :=
  congrArg Lexeme.rest (span_append h hrest)

/-! ## The number of a decimal -/

/-- The number that is read depends only on the rational number that is written. -/
theorem decimalNumber_eq {digits : List Char} {exponent : ℤ} {code : ℕ}
    (hdigits : ∀ c ∈ digits, c.isDigit) (hcode : code ≠ 0) (hfinite : code < infinityCode)
    (h : (Rounding.ofCode code).Contains (decimalValue digits * 10 ^ exponent)) :
    decimalNumber digits exponent = ofCode false code := by
  obtain ⟨hlow, hhigh⟩ := contains_bounds hcode hfinite h
  have hvalue : decimalValue digits ≠ 0 := by
    intro hzero
    rw [hzero, Nat.cast_zero, zero_mul] at hlow
    exact absurd hlow (not_lt.2 (by positivity))
  obtain ⟨hplaces, hplaces'⟩ := le_decimalValue hdigits hvalue
  have hten : (1 : ℚ) < 10 := by norm_num
  have hscale : (0 : ℚ) < 10 ^ exponent := by positivity
  have hle : exponent + (digits.dropWhile (· == '0')).length ≤ 400 := by
    have : (10 : ℚ) ^ (((digits.dropWhile (· == '0')).length : ℤ) - 1 + exponent) <
        10 ^ (400 : ℤ) := by
      rw [zpow_add₀ (by norm_num)]
      exact lt_of_le_of_lt (by gcongr) hhigh
    have := (zpow_lt_zpow_iff_right₀ hten).1 this
    omega
  have hge : -400 ≤ exponent + (digits.dropWhile (· == '0')).length := by
    have : (10 : ℚ) ^ (-401 : ℤ) <
        10 ^ (((digits.dropWhile (· == '0')).length : ℤ) + exponent) := by
      rw [zpow_add₀ (by norm_num)]
      exact hlow.trans (by gcongr)
    have := (zpow_lt_zpow_iff_right₀ hten).1 this
    omega
  unfold decimalNumber
  dsimp only [Nat.pow_eq]
  rw [if_neg hvalue, if_neg (by omega), if_neg (by omega)]
  cases exponent with
  | ofNat k =>
    refine nearest_eq hcode hfinite one_ne_zero ?_
    rw [Int.ofNat_eq_natCast, zpow_natCast] at h
    push_cast
    rwa [div_one]
  | negSucc k =>
    refine nearest_eq hcode hfinite (by positivity) ?_
    rw [zpow_negSucc, ← div_eq_mul_inv] at h
    push_cast
    exact h

/-! ## Reading the parts -/

theorem exponentValue?_cons {digits : List Char} (hne : digits ≠ [])
    (hdigits : ∀ c ∈ digits, c.isDigit) :
    exponentValue? ('e' :: digits) = some (decimalValue digits : ℤ) ∧
      exponentValue? ('e' :: '-' :: digits) = some (-(decimalValue digits : ℤ)) := by
  have hread : ¬ (digits.isEmpty || !digits.all Char.isDigit) = true := by
    rw [List.isEmpty_eq_false_iff.2 hne, List.all_eq_true.2 hdigits]
    decide
  constructor
  · rw [exponentValue?, if_pos (by decide)]
    · exact if_neg hread
    all_goals
      rintro rest rfl
      exact absurd (hdigits _ List.mem_cons_self) (by decide)
  · rw [exponentValue?, if_pos (by decide)]
    exact if_neg hread

theorem exponentValue?_exponentText (e : ℤ) : exponentValue? ('e' :: exponentText e) = some e := by
  cases e with
  | ofNat n =>
    rw [exponentText, (exponentValue?_cons Nat.toDigits_ne_nil (isDigit_toDigits n)).1,
      decimalValue_toDigits]
    rfl
  | negSucc n =>
    rw [exponentText, (exponentValue?_cons Nat.toDigits_ne_nil (isDigit_toDigits _)).2,
      decimalValue_toDigits]
    rfl

theorem decimalLiteral?_point {whole digits rest : List Char} (hwhole : ∀ c ∈ whole, c.isDigit)
    (hdigits : ∀ c ∈ digits, c.isDigit) (hrest : ¬ rest.head?.any Char.isDigit)
    (hstarts : whole = [] → digits ≠ []) :
    decimalLiteral? (whole ++ '.' :: (digits ++ rest)) =
      (exponentValue? rest).map fun e => decimalNumber (whole ++ digits) (e - digits.length) := by
  have hpoint : ¬ ('.' :: (digits ++ rest)).head?.any Char.isDigit := Bool.false_ne_true
  have hsome : ¬ (whole.isEmpty && digits.isEmpty) = true := by
    rw [Bool.and_eq_true, List.isEmpty_iff, List.isEmpty_iff]
    exact fun hempty => hstarts hempty.1 hempty.2
  unfold decimalLiteral?
  rw [takeWhile_append_of_head? hwhole hpoint, dropWhile_append_of_head? hwhole hpoint]
  change (if (whole.isEmpty && ((digits ++ rest).takeWhile Char.isDigit).isEmpty) = true then none
    else (exponentValue? ((digits ++ rest).dropWhile Char.isDigit)).map fun e =>
      decimalNumber (whole ++ (digits ++ rest).takeWhile Char.isDigit)
        (e - ((digits ++ rest).takeWhile Char.isDigit).length)) = _
  rw [takeWhile_append_of_head? hdigits hrest, dropWhile_append_of_head? hdigits hrest]
  exact if_neg hsome

theorem decimalLiteral?_whole {whole rest : List Char} (hne : whole ≠ [])
    (hwhole : ∀ c ∈ whole, c.isDigit) (hrest : ¬ rest.head?.any Char.isDigit)
    (hpoint : rest.head? ≠ some '.') :
    decimalLiteral? (whole ++ rest) = (exponentValue? rest).map (decimalNumber whole) := by
  have hsome : ¬ (whole.isEmpty && ([] : List Char).isEmpty) = true := by
    rw [Bool.and_eq_true, List.isEmpty_iff]
    exact fun hempty => hne hempty.1
  unfold decimalLiteral?
  rw [takeWhile_append_of_head? hwhole hrest, dropWhile_append_of_head? hwhole hrest]
  dsimp only
  split
  case h_1 => exact absurd rfl hpoint
  case h_2 =>
    dsimp only
    rw [if_neg hsome, List.append_nil, List.length_nil, Nat.cast_zero]
    simp only [sub_zero]

namespace DecimalNumeral

variable {d : DecimalNumeral}

theorem WellFormed.isDigit_whole (h : d.WellFormed) : ∀ c ∈ d.whole, c.isDigit :=
  fun c hc => h.isDigit c (List.mem_append_left _ hc)

theorem WellFormed.isDigit_fraction (h : d.WellFormed) : ∀ c ∈ d.fraction.getD [], c.isDigit :=
  fun c hc => h.isDigit c (List.mem_append_right _ hc)

/-- A class without the letter of an exponent ends before it. -/
theorem scaleText_head? {p : Char → Bool} (he : p 'e' = false) {rest : List Char}
    (hrest : ¬ rest.head?.any p) (d : DecimalNumeral) :
    ¬ (d.scaleText ++ rest).head?.any p := by
  unfold scaleText
  cases d.exponent with
  | none => exact hrest
  | some e => simp [he]

/-- A class without the point and the letter of an exponent ends before them. -/
theorem fractionText_head? {p : Char → Bool} (hpoint : p '.' = false) (he : p 'e' = false)
    {rest : List Char} (hrest : ¬ rest.head?.any p) (d : DecimalNumeral) :
    ¬ (d.fractionText ++ (d.scaleText ++ rest)).head?.any p := by
  unfold fractionText
  cases d.fraction with
  | none => exact scaleText_head? he hrest d
  | some digits => simp [hpoint]

theorem exponentValue?_scaleText (d : DecimalNumeral) :
    exponentValue? d.scaleText = some (d.exponent.getD 0) := by
  unfold scaleText
  cases d.exponent with
  | none => rfl
  | some e => exact exponentValue?_exponentText e

theorem WellFormed.decimalLiteral? (h : d.WellFormed) :
    decimalLiteral? d.text = some (decimalNumber d.digits d.scale) := by
  have hnil : ¬ ([] : List Char).head?.any Char.isDigit := by decide
  have hscale := scaleText_head? (p := Char.isDigit) rfl hnil d
  rw [List.append_nil] at hscale
  have hdigits := h.isDigit_fraction
  have hstarts := h.starts
  unfold text fractionText digits scale
  cases hfraction : d.fraction with
  | some digits =>
    rw [hfraction, Option.getD_some] at hdigits hstarts
    rw [List.cons_append, decimalLiteral?_point h.isDigit_whole hdigits hscale hstarts,
      exponentValue?_scaleText]
    rfl
  | none =>
    rw [hfraction] at hstarts
    have hpoint : d.scaleText.head? ≠ some '.' := by
      unfold scaleText
      cases d.exponent <;> simp
    rw [List.nil_append, decimalLiteral?_whole (fun hwhole => hstarts hwhole rfl) h.isDigit_whole
      hscale hpoint, exponentValue?_scaleText, Option.map_some, Option.getD_none, List.append_nil,
      List.length_nil, Nat.cast_zero, sub_zero]

end DecimalNumeral

/-! ## Telling a decimal numeral from the others -/

theorem not_mem_exponentText (e : ℤ) : '_' ∉ exponentText e := by
  cases e with
  | ofNat n => exact Nat.underscore_not_in_toDigits
  | negSucc n => simp [exponentText, Nat.underscore_not_in_toDigits]

theorem contains_eq_false {pattern text : List Char} {c : Char} (hpattern : c ∈ pattern)
    (htext : c ∉ text) : contains pattern text = false := by
  induction text with
  | nil => exact List.isEmpty_eq_false_iff.2 (List.ne_nil_of_mem hpattern)
  | cons first rest ih =>
    have hprefix : pattern.isPrefixOf (first :: rest) = false := by
      rw [Bool.eq_false_iff]
      exact fun h => htext ((List.isPrefixOf_iff_prefix.1 h).subset hpattern)
    rw [contains, hprefix, ih fun h => htext (List.mem_cons_of_mem _ h)]
    rfl

theorem misplacesSeparator_eq_false {text : List Char} (h : '_' ∉ text) (point : Bool) :
    misplacesSeparator point text = false := by
  have hcontains : ∀ pattern : List Char, '_' ∈ pattern → contains pattern text = false :=
    fun pattern hpattern => contains_eq_false hpattern h
  have hhead : (text.head? == some '_') = false :=
    beq_eq_false_iff_ne.2 fun heq => h (List.mem_of_head? heq)
  have hlast : (text.getLast? == some '_') = false :=
    beq_eq_false_iff_ne.2 fun heq => h (List.mem_of_getLast? heq)
  rw [misplacesSeparator, hhead, hlast, hcontains _ (by decide), hcontains _ (by decide),
    hcontains _ (by decide)]
  cases point <;> rfl

theorem withoutSeparators_eq {text : List Char} (h : '_' ∉ text) : withoutSeparators text = text :=
  List.filter_eq_self.2 fun _ hc => bne_iff_ne.2 fun heq => h (heq ▸ hc)

/-- A text without separators is a decimal numeral if a zero in front is all of its whole part. -/
theorem numberValue?_of_zero {text : List Char} (h : '_' ∉ text)
    (hzero : ∀ c rest, text = '0' :: c :: rest → c = '.' ∨ c = 'e') :
    numberValue? text = decimalLiteral? text := by
  rw [numberValue?, misplacesSeparator_eq_false h, withoutSeparators_eq h, if_neg (by decide)]
  split
  case h_8 => rfl
  case h_7 c rest _ _ _ _ _ _ =>
    have hdigit : ¬ (c :: rest).all Char.isDigit = true := by
      rw [List.all_cons]
      rcases hzero c rest rfl with rfl | rfl <;> exact Bool.false_ne_true
    rw [if_neg hdigit]
  all_goals exact absurd (hzero _ _ rfl) (by decide)

namespace DecimalNumeral

variable {d : DecimalNumeral}

theorem WellFormed.not_mem_text (h : d.WellFormed) : '_' ∉ d.text := by
  have hdigit : ∀ digits : List Char, (∀ c ∈ digits, c.isDigit) → '_' ∉ digits :=
    fun digits hdigits hmem => absurd (hdigits '_' hmem) (by decide)
  have hwhole := hdigit _ h.isDigit_whole
  have hfraction := hdigit _ h.isDigit_fraction
  unfold text fractionText scaleText
  cases hf : d.fraction with
  | none => cases d.exponent <;> simp [hwhole, not_mem_exponentText]
  | some digits =>
    rw [hf, Option.getD_some] at hfraction
    cases d.exponent <;> simp [hwhole, hfraction, not_mem_exponentText]

/-- What stands behind a zero in front. -/
theorem WellFormed.second (h : d.WellFormed) {after : List Char} {c : Char} {rest : List Char}
    (heq : d.text ++ after = '0' :: c :: rest) :
    c = '.' ∨ c = 'e' ∨ d.text = ['0'] ∧ after.head? = some c := by
  obtain ⟨whole, fraction, exponent⟩ := d
  have hstarts := h.starts
  have hzero := h.zero
  unfold text fractionText scaleText at *
  dsimp only at *
  match whole, fraction with
  | [], none => exact absurd rfl (hstarts rfl)
  | [], some digits => cases heq
  | first :: whole, fraction =>
    obtain ⟨rfl, htail⟩ := List.cons.inj heq
    obtain ⟨-, rfl⟩ := List.cons.inj (hzero rfl)
    cases fraction with
    | some digits => exact .inl (List.cons.inj htail).1.symm
    | none =>
      cases exponent with
      | some e => exact .inr (.inl (List.cons.inj htail).1.symm)
      | none => exact .inr (.inr ⟨rfl, congrArg List.head? htail⟩)

/-- A decimal numeral has the number of its digits and its scale. -/
theorem WellFormed.numberValue? (h : d.WellFormed) :
    numberValue? d.text = some (decimalNumber d.digits d.scale) := by
  refine (numberValue?_of_zero h.not_mem_text fun c rest heq => ?_).trans h.decimalLiteral?
  rw [← List.append_nil d.text] at heq
  simpa using h.second heq

end DecimalNumeral

end ScriptMin.Literal
