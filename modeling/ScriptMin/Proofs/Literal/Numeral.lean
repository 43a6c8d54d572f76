import ScriptMin.Proofs.Number.Exact
import ScriptMin.Proofs.Token.Numeral

/-!
# Numerals read back

A number is written in the shortest of up to three forms. The positional form and the one with an
exponent are decimal numerals of the same rational number, which lies in the interval of the number
(`decimalNumber_of_writes`). The form in base sixteen is read digit by digit in binary64, which is
exact below `2 ^ 53` (`radixValue?_eq`). So whichever form is taken, it is one token and is read
back bit for bit (`numeral_read_back`).
-/

namespace ScriptMin.Literal

open Source Number Lexer

/-! ## Base sixteen -/

/-- Digits are added up exactly while the number stays below `2 ^ 53`. -/
theorem foldlM_radix {base : ℕ} (hpos : 0 < base) (hbase : base ≤ 16) {digits : List Char}
    (start : ℕ) {n : ℕ} (h : Digits base digits n)
    (hlt : base ^ digits.length * start + n < 2 ^ 53) :
    digits.foldlM
        (fun value c => (digitValue? base c).map fun d =>
          value * Float.ofNat base + Float.ofNat d) (nearest start 1) =
      some (nearest (base ^ digits.length * start + n) 1) := by
  induction digits generalizing start n with
  | nil =>
    obtain ⟨values, hvalues, rfl⟩ := h
    cases hvalues
    simp
  | cons c digits ih =>
    obtain ⟨value, m, hc, hdigits, rfl⟩ := digits_cons_iff.1 h
    have htotal : base ^ (c :: digits).length * start + (base ^ digits.length * value + m) =
        base ^ digits.length * (start * base + value) + m := by
      rw [List.length_cons, pow_succ]
      ring
    rw [htotal] at hlt ⊢
    have hstep : start * base + value < 2 ^ 53 := by
      have := Nat.le_mul_of_pos_left (start * base + value) (pow_pos hpos digits.length)
      omega
    have hstart : start < 2 ^ 53 := by
      have := Nat.le_mul_of_pos_right start hpos
      omega
    have hvalue : value < 2 ^ 53 := by omega
    have hbase' : base < 2 ^ 53 := by omega
    have hsum : nearest start 1 * Float.ofNat base + Float.ofNat value =
        nearest (start * base + value) 1 := by
      rw [ofNat_eq_nearest hbase', ofNat_eq_nearest hvalue, nearest_mul hstart hbase' (by omega),
        nearest_add hstep]
    rw [List.foldlM_cons, digitValue?_of_isDigit hbase hc, Option.map_some, hsum]
    exact ih _ hdigits hlt

theorem radixValue?_eq {base : ℕ} (hpos : 0 < base) (hbase : base ≤ 16) {digits : List Char}
    {n : ℕ} (h : Digits base digits n) (hlt : n < 2 ^ 53) :
    radixValue? base digits = some (nearest n 1) := by
  have hfold := foldlM_radix hpos hbase 0 h (by rwa [Nat.mul_zero, Nat.zero_add])
  rw [Nat.mul_zero, Nat.zero_add, ← ofNat_eq_nearest (by decide)] at hfold
  exact hfold

theorem numberValue?_hexadecimal {n : ℕ} (hlt : n < 2 ^ 53) :
    numberValue? ('0' :: 'x' :: Nat.toDigits 16 n) = some (nearest n 1) := by
  have hdigits := @digits_toDigits 16 (by decide) n
  have hseparator : '_' ∉ '0' :: 'x' :: Nat.toDigits 16 n := by
    simp only [List.mem_cons, not_or]
    refine ⟨by decide, by decide, fun hmem => ?_⟩
    obtain ⟨value, hvalue⟩ := hdigits.forall '_' hmem
    cases digitValue?_of_isDigit le_rfl hvalue
  rw [numberValue?, misplacesSeparator_eq_false hseparator, withoutSeparators_eq hseparator]
  exact radixValue?_eq (by decide) le_rfl hdigits hlt

/-! ## The decimal forms -/

/-- A text is a decimal numeral of the same rational number as a decimal. -/
structure Writes (d : Decimal) (text : List Char) (numeral : DecimalNumeral) : Prop where
  wellFormed : numeral.WellFormed
  text_eq : numeral.text = text
  value : (decimalValue numeral.digits : ℚ) * 10 ^ numeral.scale = d.digits * 10 ^ d.exponent

/-- No zero stands in front of the digits of a number above zero. -/
theorem head?_toDigits {n : ℕ} (hn : n ≠ 0) : (Nat.toDigits 10 n).head? ≠ some '0' := by
  intro hzero
  obtain ⟨rest, heq⟩ := List.head?_eq_some_iff.1 hzero
  have hdigits := isDigit_toDigits n
  have hvalue := decimalValue_toDigits n
  rw [heq, List.forall_mem_cons] at hdigits
  rw [heq, decimalValue_cons] at hvalue
  have hlt : n < 10 ^ rest.length := by
    have := decimalValue_lt hdigits.2
    simp only [Char.reduceToNat, Nat.sub_self, Nat.mul_zero, Nat.zero_add] at hvalue
    omega
  rcases Nat.eq_zero_or_pos rest.length with hnil | hpos
  · rw [hnil] at hlt
    omega
  · have hlength := (Nat.length_toDigits_le_iff (by decide) hpos).2 hlt
    rw [heq, List.length_cons] at hlength
    omega

/-- A numeral with no zero in front. -/
theorem DecimalNumeral.wellFormed {numeral : DecimalNumeral}
    (hdigits : ∀ c ∈ numeral.digits, c.isDigit)
    (hstarts : numeral.whole = [] → numeral.fraction.getD [] ≠ [])
    (hhead : numeral.whole.head? ≠ some '0') : numeral.WellFormed :=
  ⟨hdigits, hstarts, fun h => absurd h hhead⟩

theorem isDigit_replicate (k : ℕ) : ∀ c ∈ List.replicate k '0', c.isDigit := by
  intro c hc
  rw [List.eq_of_mem_replicate hc]
  rfl

theorem writes_positional {d : Decimal} (hd : d.digits ≠ 0) :
    ∃ numeral, Writes d (positional d) numeral := by
  have hdigits := isDigit_toDigits d.digits
  have hne : Nat.toDigits 10 d.digits ≠ [] := Nat.toDigits_ne_nil
  have hhead := head?_toDigits hd
  have hvalue := decimalValue_toDigits d.digits
  obtain ⟨n, exponent⟩ := d
  unfold positional
  dsimp only at *
  generalize Nat.toDigits 10 n = digits at *
  have hzeros : ∀ k, ∀ c ∈ List.replicate k '0' ++ digits, c.isDigit :=
    fun k c hc => (List.mem_append.1 hc).elim (isDigit_replicate k c) (hdigits c)
  cases exponent with
  | ofNat k =>
    have hdigits' : ∀ c ∈ digits ++ List.replicate k '0', c.isDigit :=
      fun c hc => (List.mem_append.1 hc).elim (hdigits c) (isDigit_replicate k c)
    have hhead' : (digits ++ List.replicate k '0').head? ≠ some '0' := by
      rwa [List.head?_append_of_ne_nil _ hne]
    refine ⟨⟨digits ++ List.replicate k '0', none, none⟩, DecimalNumeral.wellFormed ?_ ?_ hhead',
      ?_, ?_⟩
    · simpa [DecimalNumeral.digits] using hdigits'
    · simp [hne]
    · simp [DecimalNumeral.text, DecimalNumeral.fractionText, DecimalNumeral.scaleText, hd]
    · simp [DecimalNumeral.digits, DecimalNumeral.scale, decimalValue_append_zeros, hvalue]
  | negSucc k =>
    dsimp only
    split_ifs with hplaces
    · have hdrop : (digits.drop (digits.length - (k + 1))).length = k + 1 := by
        rw [List.length_drop]
        omega
      have hdrop' : digits.drop (digits.length - (k + 1)) ≠ [] := by
        rw [← List.length_pos_iff, hdrop]
        exact k.succ_pos
      have htake : digits.length - (k + 1) ≠ 0 := by omega
      refine ⟨⟨digits.take (digits.length - (k + 1)), some (digits.drop (digits.length - (k + 1))),
        none⟩, DecimalNumeral.wellFormed ?_ (fun _ => hdrop') ?_, ?_, ?_⟩
      · simpa [DecimalNumeral.digits] using hdigits
      · rwa [List.head?_take, if_neg htake]
      · simp [DecimalNumeral.text, DecimalNumeral.fractionText, DecimalNumeral.scaleText]
      · simp [DecimalNumeral.digits, DecimalNumeral.scale, hdrop, hvalue, Int.negSucc_eq]
    · have hlength : (List.replicate (k + 1 - digits.length) '0' ++ digits).length = k + 1 := by
        rw [List.length_append, List.length_replicate]
        omega
      refine ⟨⟨[], some (List.replicate (k + 1 - digits.length) '0' ++ digits), none⟩,
        DecimalNumeral.wellFormed (hzeros _) ?_ (by simp), ?_, ?_⟩
      · simp [hne]
      · simp [DecimalNumeral.text, DecimalNumeral.fractionText, DecimalNumeral.scaleText]
      · rw [DecimalNumeral.scale, DecimalNumeral.digits]
        dsimp only [Option.getD_some, Option.getD_none, List.nil_append]
        rw [decimalValue_zeros_append, hvalue, hlength, zero_sub]
        rfl

theorem writes_scientific {d : Decimal} (hd : d.digits ≠ 0) :
    ∃ numeral, Writes d (scientific d) numeral := by
  have hdigits := isDigit_toDigits d.digits
  have hne : Nat.toDigits 10 d.digits ≠ [] := Nat.toDigits_ne_nil
  have hhead := head?_toDigits hd
  have hvalue := decimalValue_toDigits d.digits
  obtain ⟨n, exponent⟩ := d
  unfold scientific
  dsimp only at *
  generalize Nat.toDigits 10 n = digits at *
  split_ifs with hpoint
  · match digits, hne with
    | [first], _ =>
      have hzero : exponent = 0 := by
        simp only [List.length_singleton] at hpoint
        omega
      refine ⟨⟨[first], none, none⟩, DecimalNumeral.wellFormed hdigits nofun hhead, rfl, ?_⟩
      simp [DecimalNumeral.digits, DecimalNumeral.scale, hvalue, hzero]
    | first :: second :: rest, _ =>
      refine ⟨⟨[first], some (second :: rest), none⟩,
        DecimalNumeral.wellFormed hdigits nofun hhead, ?_, ?_⟩
      · simp [DecimalNumeral.text, DecimalNumeral.fractionText, DecimalNumeral.scaleText]
      · have hscale : (0 : ℤ) - (second :: rest).length = exponent := by
          simp only [List.length_cons] at hpoint ⊢
          omega
        rw [DecimalNumeral.scale, DecimalNumeral.digits]
        dsimp only [Option.getD_some, Option.getD_none, List.cons_append, List.nil_append]
        rw [hscale, hvalue]
  · have hdigits' : ∀ c ∈ digits ++ [], c.isDigit := by rwa [List.append_nil]
    refine ⟨⟨digits, none, some exponent⟩,
      DecimalNumeral.wellFormed hdigits' (fun h => absurd h hne) hhead, ?_, ?_⟩
    · simp [DecimalNumeral.text, DecimalNumeral.fractionText, DecimalNumeral.scaleText]
    · simp [DecimalNumeral.digits, DecimalNumeral.scale, hvalue]

/-! ## The shortest form -/

/-- The forms that the shortest one is taken from. -/
def forms (code : ℕ) : List (List Char) :=
  positional (shortest .up code) :: scientific (shortest .up code) :: (hexadecimal? code).toList

theorem shorter_spec (a b : List Char) :
    (shorter a b = a ∨ shorter a b = b) ∧
      (shorter a b).length ≤ a.length ∧ (shorter a b).length ≤ b.length := by
  unfold shorter
  split <;> simp <;> omega

theorem numeralOfCode_forms (code : ℕ) :
    numeralOfCode code ∈ forms code ∧
      ∀ form ∈ forms code, (numeralOfCode code).length ≤ form.length := by
  obtain ⟨hbest, hpositional, hscientific⟩ :=
    shorter_spec (positional (shortest .up code)) (scientific (shortest .up code))
  unfold numeralOfCode forms
  dsimp only
  cases hexadecimal? code with
  | none =>
    simp only [Option.toList_none, List.mem_cons, List.not_mem_nil, or_false, forall_eq_or_imp,
      forall_eq]
    exact ⟨hbest, hpositional, hscientific⟩
  | some hex =>
    obtain ⟨hchoice, hdecimal, hhex⟩ :=
      shorter_spec (shorter (positional (shortest .up code)) (scientific (shortest .up code))) hex
    simp only [Option.toList_some, List.mem_cons, List.not_mem_nil, or_false, forall_eq_or_imp,
      forall_eq]
    refine ⟨?_, hdecimal.trans hpositional, hdecimal.trans hscientific, hhex⟩
    rcases hchoice with hchoice | hchoice
    · rw [hchoice, ← or_assoc]
      exact .inl hbest
    · exact .inr (.inr hchoice)

/-- A text is a decimal numeral that is read as the number with a code. -/
def ReadsAs (code : ℕ) (text : List Char) : Prop :=
  ∃ numeral : DecimalNumeral, numeral.WellFormed ∧ numeral.text = text ∧
    numberValue? text = some (ofCode false code)

/-- A decimal of the interval is read back. -/
theorem Writes.readsAs {code : ℕ} (hcode : code ≠ 0) (hfinite : code < infinityCode)
    {text : List Char} {numeral : DecimalNumeral} (h : Writes (shortest .up code) text numeral) :
    ReadsAs code text := by
  have hcontains := contains_shortest .up hcode hfinite
  rw [← h.value] at hcontains
  refine ⟨numeral, h.wellFormed, h.text_eq, ?_⟩
  rw [← h.text_eq, h.wellFormed.numberValue?,
    decimalNumber_eq h.wellFormed.isDigit hcode hfinite hcontains]

theorem readsAs_zero : ReadsAs 0 ['0'] := by
  have hvalue : numberValue? ['0'] = some 0 := rfl
  refine ⟨⟨['0'], none, none⟩, ⟨List.all_eq_true.1 rfl, nofun, fun _ => rfl⟩, rfl, ?_⟩
  rw [hvalue]
  exact congrArg some (ofNat_eq_nearest (by decide))

/-- Every form of a finite number is a decimal numeral that is read back, or an integer below
`2 ^ 53` in base sixteen. -/
theorem readsAs_of_mem_forms {code : ℕ} (hfinite : code < infinityCode) {form : List Char}
    (h : form ∈ forms code) :
    ReadsAs code form ∨
      ∃ n < 2 ^ 53, wholeValue? code = some n ∧ form = '0' :: 'x' :: Nat.toDigits 16 n := by
  simp only [forms, List.mem_cons, Option.mem_toList] at h
  rcases h with rfl | rfl | hhex
  · left
    by_cases hcode : code = 0
    · subst hcode
      exact readsAs_zero
    · obtain ⟨numeral, hwrites⟩ := writes_positional (shortest_digits_ne_zero .up hcode hfinite)
      exact hwrites.readsAs hcode hfinite
  · left
    by_cases hcode : code = 0
    · subst hcode
      exact readsAs_zero
    · obtain ⟨numeral, hwrites⟩ := writes_scientific (shortest_digits_ne_zero .up hcode hfinite)
      exact hwrites.readsAs hcode hfinite
  · right
    unfold hexadecimal? at hhex
    split at hhex
    case h_2 => cases hhex
    case h_1 n hwhole =>
      obtain ⟨hlt, heq⟩ := Option.ite_none_right_eq_some.1 hhex
      exact ⟨n, hlt, hwhole, (Option.some.inj heq).symm⟩

/-! ## One token, the same number -/

/-- In front of `rest` the lexer takes a text as one number. -/
def ReadsNumber (text rest : List Char) : Prop :=
  ∀ mode position, Cursor.next mode ⟨text ++ rest, position⟩ =
    .ok (⟨.number, String.ofList text, ⟨position, position + byteLength text⟩, false⟩,
      ⟨rest, position + byteLength text⟩)

theorem readsNumber_of_token {text rest : List Char} (hstarts : startsNumeral text)
    (h : ∀ mode, token mode (text ++ rest) = .ok (.number, ⟨text, rest⟩)) :
    ReadsNumber text rest := by
  intro mode position
  obtain ⟨htrivia, hhash⟩ :=
    startsTrivia_of_startsNumeral (startsNumeral_mono hstarts (List.prefix_append text rest))
  exact Cursor.next_of_token htrivia hhash (h mode) position

theorem DecimalNumeral.WellFormed.readsNumber {d : DecimalNumeral} (h : d.WellFormed)
    {rest : List Char} (hrest : ¬ rest.head?.any continuesWord)
    (hpoint : d.fraction = none → d.exponent = none → rest.head? ≠ some '.') :
    ReadsNumber d.text rest :=
  readsNumber_of_token (startsNumeral_text h) (token_decimal h hrest hpoint)

theorem readsNumber_hexadecimal (n : ℕ) {rest : List Char}
    (hrest : ¬ rest.head?.any continuesWord) :
    ReadsNumber ('0' :: 'x' :: Nat.toDigits 16 n) rest :=
  readsNumber_of_token rfl (token_hexadecimal n hrest)

/-- A point right behind a text belongs to it: with nothing behind the point the lexer takes both
as one number, and no token ends before the point, whatever follows. -/
structure TakesPoint (text : List Char) : Prop where
  readsNumber : ReadsNumber (text ++ ['.']) []
  goesOn : ∀ {mode rest position t after},
    Cursor.next mode ⟨text ++ '.' :: rest, position⟩ = .ok (t, after) →
      text ++ ['.'] <+: t.text.toList

/-- A text that is read as one number in front of a point does not take the point. -/
theorem ReadsNumber.not_takesPoint {text rest : List Char} (h : ReadsNumber text ('.' :: rest)) :
    ¬ TakesPoint text := by
  intro hpoint
  have hprefix := hpoint.goesOn (h .division 0)
  rw [String.toList_ofList] at hprefix
  have hlength := hprefix.length_le
  rw [List.length_append, List.length_singleton] at hlength
  omega

/-- A numeral of digits alone takes a point. -/
theorem DecimalNumeral.WellFormed.takesPoint {d : DecimalNumeral} (h : d.WellFormed)
    (hfraction : d.fraction = none) (hexponent : d.exponent = none) : TakesPoint d.text := by
  have htext : d.text = d.whole := by
    simp [text, fractionText, scaleText, hfraction, hexponent]
  have hne : d.whole ≠ [] := by
    intro hwhole
    have := h.starts hwhole
    rw [hfraction] at this
    exact this rfl
  rw [htext]
  constructor
  · -- with its point the numeral is one with an empty fraction
    have hdigits : ∀ c ∈ d.whole ++ [], c.isDigit := by
      rw [List.append_nil]
      exact h.isDigit_whole
    have hpoint : WellFormed ⟨d.whole, some [], none⟩ :=
      ⟨hdigits, fun hwhole => absurd hwhole hne, h.zero⟩
    exact hpoint.readsNumber Bool.false_ne_true (by simp)
  · intro mode rest position t after hread
    obtain ⟨c, digits, heq⟩ := List.exists_cons_of_ne_nil hne
    have hc := h.isDigit_whole c (heq ▸ List.mem_cons_self)
    have hstarts : startsNumeral (d.whole ++ '.' :: rest) := by
      rw [heq]
      exact (Bool.or_eq_true _ _).mpr (.inl hc)
    obtain ⟨htrivia, hhash⟩ := startsTrivia_of_startsNumeral hstarts
    rw [Cursor.next, triviaAt_of_startsTrivia htrivia hhash] at hread
    dsimp only at hread
    split at hread
    case h_1 => cases hread
    case h_2 kind l htoken =>
      cases hread
      rw [String.toList_ofList]
      exact token_point hne h.isDigit_whole htoken

theorem isPlainInteger_text {d : DecimalNumeral} (h : d.WellFormed) :
    isPlainInteger d.text ↔ d.fraction = none ∧ d.exponent = none := by
  have hwhole := List.all_eq_true.2 h.isDigit_whole
  unfold isPlainInteger DecimalNumeral.text DecimalNumeral.fractionText DecimalNumeral.scaleText
  cases d.fraction <;> cases d.exponent <;> simp [hwhole]

/-- Whether a point goes on a form depends on whether it is an integer of digits alone. -/
theorem ReadsAs.isPlainInteger_iff {code : ℕ} {text : List Char} (h : ReadsAs code text) :
    isPlainInteger text ↔ TakesPoint text := by
  obtain ⟨d, hd, rfl, -⟩ := h
  rw [isPlainInteger_text hd]
  refine ⟨fun hplain => hd.takesPoint hplain.1 hplain.2, fun hpoint => ?_⟩
  by_contra hplain
  have hreads : ReadsNumber d.text ['.'] :=
    hd.readsNumber (by decide) fun hfraction hexponent => absurd ⟨hfraction, hexponent⟩ hplain
  exact hreads.not_takesPoint hpoint

/-- The numeral of a finite number whose sign bit is clear reads back. In front of a text that does
not go on with it, it is one token; its number is the same bit for bit; no other form is shorter;
and a point behind it is read into it exactly if it is an integer of digits alone. -/
theorem numeral_read_back {v : Float} (hfinite : isFinite v) (hsign : isNegative v = false) :
    (∀ rest, ¬ rest.head?.any continuesWord →
        (isPlainInteger (numeral v) → rest.head? ≠ some '.') → ReadsNumber (numeral v) rest) ∧
      numberValue? (numeral v) = some v ∧
      (∀ form ∈ forms (magnitudeCode v), (numeral v).length ≤ form.length) ∧
      (isPlainInteger (numeral v) ↔ TakesPoint (numeral v)) := by
  have hcode : magnitudeCode v < infinityCode := of_decide_eq_true hfinite
  obtain ⟨hmem, hshortest⟩ := numeralOfCode_forms (magnitudeCode v)
  have hv := ofCode_magnitudeCode hfinite hsign
  rcases readsAs_of_mem_forms hcode hmem with hdecimal | ⟨n, hlt, hwhole, heq⟩
  · have hplain := hdecimal.isPlainInteger_iff
    obtain ⟨d, hd, heq, hvalue⟩ := hdecimal
    refine ⟨fun rest hrest hpoint => ?_, hvalue.trans (congrArg some hv), hshortest, hplain⟩
    unfold Number.numeral at hpoint ⊢
    rw [← heq] at hpoint ⊢
    exact hd.readsNumber hrest fun hfraction hexponent =>
      hpoint ((isPlainInteger_text hd).2 ⟨hfraction, hexponent⟩)
  · have hletter : isPlainInteger (numeral v) = false := by
      unfold Number.numeral
      rw [heq]
      rfl
    have hreads : ∀ rest, ¬ rest.head?.any continuesWord → ReadsNumber (numeral v) rest := by
      unfold Number.numeral
      rw [heq]
      exact fun rest => readsNumber_hexadecimal n
    have hvalue : numberValue? (numeral v) = some v := by
      unfold Number.numeral
      rw [heq, numberValue?_hexadecimal hlt, nearest_wholeValue? hcode hwhole, hv]
    refine ⟨fun rest hrest _ => hreads rest hrest, hvalue, hshortest, ?_⟩
    rw [hletter]
    exact iff_of_false Bool.false_ne_true (hreads ['.'] (by decide)).not_takesPoint

/-- The least number above zero is written with an exponent. -/
theorem numeral_read_back_least :
    numeral (ofCode false 1) = ['5', 'e', '-', '3', '2', '4'] ∧
      (∀ rest, ¬ rest.head?.any continuesWord →
          (isPlainInteger (numeral (ofCode false 1)) → rest.head? ≠ some '.') →
            ReadsNumber (numeral (ofCode false 1)) rest) ∧
        numberValue? (numeral (ofCode false 1)) = some (ofCode false 1) ∧
        (∀ form ∈ forms (magnitudeCode (ofCode false 1)),
          (numeral (ofCode false 1)).length ≤ form.length) ∧
        (isPlainInteger (numeral (ofCode false 1)) ↔ TakesPoint (numeral (ofCode false 1))) :=
  ⟨by decide +kernel, numeral_read_back (by decide +kernel) (by decide +kernel)⟩

end ScriptMin.Literal
