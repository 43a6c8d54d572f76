import Mathlib.Data.Bool.AllAny
import ScriptMin.Proofs.Literal.Decimal
import ScriptMin.Proofs.Literal.Digits
import ScriptMin.Proofs.Token.Trivia

/-!
# Numerals are one token

In front of a text that does not go on with a word, the lexer takes exactly the text of a numeral.
A decimal numeral without a point and an exponent would go on with a point as well
(`token_decimal`); one in base sixteen ends before it (`token_hexadecimal`).
-/

namespace ScriptMin.Lexer

open Source Number Literal

theorem continuesWord_of_isDigitOrSeparator {base : ℕ} (hbase : base ≤ 16) {c : Char}
    (h : isDigitOrSeparator base c) : continuesWord c := by
  have hdigits : ∀ v < 16, continuesWord (Nat.digitChar v) ∧
      continuesWord (Nat.digitChar v).toUpper := by decide
  rcases (Bool.or_eq_true _ _).mp h with hdigit | hseparator
  · obtain ⟨value, hvalue⟩ := Option.isSome_iff_exists.1 hdigit
    obtain ⟨hlt, hc⟩ := isDigit_of_digitValue? hbase hvalue
    obtain ⟨hlower, hupper⟩ := hdigits value (by omega)
    rcases hc with rfl | rfl
    exacts [hlower, hupper]
  · obtain rfl : c = '_' := by simpa using hseparator
    decide

/-- A text that goes on with no word goes on with no digit. -/
theorem not_digit_of_not_word {base : ℕ} (hbase : base ≤ 16) {rest : List Char}
    (hrest : ¬ rest.head?.any continuesWord) : ¬ rest.head?.any (isDigitOrSeparator base) := by
  cases rest with
  | nil => exact Bool.false_ne_true
  | cons c rest => exact fun h => hrest (continuesWord_of_isDigitOrSeparator hbase h)

/-- A numeral ends where no word goes on. -/
theorem numeralEnd_of_not_word {rest : List Char} (hrest : ¬ rest.head?.any continuesWord)
    (integer : Bool) (text : List Char) :
    numeralEnd integer text rest = .ok (.number, ⟨text, rest⟩) := by
  unfold numeralEnd
  split
  next kind before after heq =>
  split at heq
  case h_1 => exact absurd rfl hrest
  case h_2 =>
    cases heq
    exact if_neg hrest

theorem exponentSign_of_isDigit {digits : List Char} (hne : digits ≠ [])
    (h : ∀ c ∈ digits, c.isDigit) (rest : List Char) :
    exponentSign (digits ++ rest) = ⟨[], digits ++ rest⟩ := by
  obtain ⟨c, digits, rfl⟩ := List.exists_cons_of_ne_nil hne
  have hc := h c List.mem_cons_self
  rw [List.cons_append, exponentSign]
  · rintro _ heq
    obtain ⟨rfl, -⟩ := List.cons.inj heq
    exact absurd hc (by decide)
  · rintro _ heq
    obtain ⟨rfl, -⟩ := List.cons.inj heq
    exact absurd hc (by decide)

/-- The exponent of a numeral is read behind its letter. -/
theorem exponent_exponentText (e : ℤ) (before : List Char) {rest : List Char}
    (hrest : ¬ rest.head?.any continuesWord) :
    exponent before ('e' :: exponentText e ++ rest) =
      .ok ⟨before ++ 'e' :: exponentText e, rest⟩ := by
  have hend := @not_digit_of_not_word 10 (by decide) _ hrest
  have hspan : ∀ n, span (isDigitOrSeparator 10) (Nat.toDigits 10 n ++ rest) =
      ⟨Nat.toDigits 10 n, rest⟩ := fun n =>
    span_append (fun c hc => isDigitOrSeparator_of_isDigit (isDigit_toDigits n c hc)) hend
  have hne : ∀ n, (Nat.toDigits 10 n).isEmpty = false :=
    fun n => List.isEmpty_eq_false_iff.2 Nat.toDigits_ne_nil
  cases e with
  | ofNat n =>
    have hsign := exponentSign_of_isDigit Nat.toDigits_ne_nil (isDigit_toDigits n) rest
    simp [exponent, exponentText, hsign, hspan, hne, Lexeme.after]
  | negSucc n =>
    simp [exponent, exponentText, exponentSign, hspan, hne, Lexeme.after]

theorem exponent_scaleText (d : DecimalNumeral) (before : List Char) {rest : List Char}
    (hrest : ¬ rest.head?.any continuesWord) :
    exponent before (d.scaleText ++ rest) = .ok ⟨before ++ d.scaleText, rest⟩ := by
  unfold DecimalNumeral.scaleText
  cases d.exponent with
  | some e => exact exponent_exponentText e before hrest
  | none =>
    rw [List.nil_append, List.append_nil]
    cases rest with
    | nil => rfl
    | cons c rest =>
      have hletter : ¬ (c == 'e' || c == 'E') = true := by
        simp only [Bool.or_eq_true, beq_iff_eq]
        rintro (rfl | rfl) <;> exact hrest rfl
      rw [exponent, if_neg hletter]

theorem fraction_fractionText {d : DecimalNumeral} (h : d.WellFormed) {rest : List Char}
    (hrest : ¬ rest.head?.any continuesWord)
    (hpoint : d.fraction = none → d.exponent = none → rest.head? ≠ some '.') :
    fraction (d.fractionText ++ (d.scaleText ++ rest)) =
      ⟨d.fractionText, d.scaleText ++ rest⟩ := by
  have hend := DecimalNumeral.scaleText_head? (p := isDigitOrSeparator 10) (by decide)
    (not_digit_of_not_word (by decide) hrest) d
  have hdigits := h.isDigit_fraction
  unfold DecimalNumeral.fractionText
  cases hfraction : d.fraction with
  | some digits =>
    rw [hfraction, Option.getD_some] at hdigits
    dsimp only [List.cons_append]
    rw [fraction, span_append (fun c hc => isDigitOrSeparator_of_isDigit (hdigits c hc)) hend]
    rfl
  | none =>
    unfold DecimalNumeral.scaleText
    cases hexponent : d.exponent with
    | some e => rfl
    | none =>
      rw [List.nil_append, List.nil_append]
      unfold fraction
      split
      case h_1 => exact absurd rfl (hpoint hfraction hexponent)
      case h_2 => rfl

/-- A decimal numeral is read up to its end. -/
theorem decimal_text {d : DecimalNumeral} (h : d.WellFormed) {rest : List Char}
    (hrest : ¬ rest.head?.any continuesWord)
    (hpoint : d.fraction = none → d.exponent = none → rest.head? ≠ some '.') :
    decimal (d.text ++ rest) = .ok (.number, ⟨d.text, rest⟩) := by
  have hend := DecimalNumeral.fractionText_head? (p := isDigitOrSeparator 10) (by decide)
    (by decide) (not_digit_of_not_word (by decide) hrest) d
  have hwhole : ∀ c ∈ d.whole, isDigitOrSeparator 10 c :=
    fun c hc => isDigitOrSeparator_of_isDigit (h.isDigit_whole c hc)
  have htext : d.text ++ rest = d.whole ++ (d.fractionText ++ (d.scaleText ++ rest)) := by
    simp [DecimalNumeral.text]
  rw [htext, decimal]
  simp only [span_append hwhole hend, fraction_fractionText h hrest hpoint,
    exponent_scaleText d _ hrest, bind, Except.bind, numeralEnd_of_not_word hrest]
  simp [DecimalNumeral.text]

/-! ## Numerals among the tokens -/

/-- A decimal digit is one of ten characters. -/
theorem exists_digitChar_of_isDigit {c : Char} (h : c.isDigit) :
    ∃ v < 10, c = Nat.digitChar v := by
  have hc := toNat_of_isDigit h
  refine ⟨c.toNat - 48, by omega, Char.toNat_inj.1 ?_⟩
  rw [Nat.toNat_digitChar_of_lt_ten (by omega)]
  omega

/-- The first character of a numeral is a digit or a point. -/
theorem head_of_startsNumeral {c : Char} {rest : List Char} (h : startsNumeral (c :: rest)) :
    c ∈ '.' :: (List.range 10).map Nat.digitChar := by
  rcases (Bool.or_eq_true _ _).mp h with hdigit | hpoint
  · obtain ⟨v, hv, rfl⟩ := exists_digitChar_of_isDigit hdigit
    exact List.mem_cons_of_mem _ (List.mem_map_of_mem (List.mem_range.2 hv))
  · obtain ⟨rfl, -⟩ : c = '.' ∧ rest.head?.any Char.isDigit := by simpa using hpoint
    exact List.mem_cons_self

theorem token_of_startsNumeral {text : List Char} (h : startsNumeral text) (mode : SlashMode) :
    token mode text = numeral text := by
  have hword : ∀ c ∈ '.' :: (List.range 10).map Nat.digitChar,
      ¬ (!isAscii c || isIdentifierStart c) = true := List.all_iff_forall_prop.1 rfl
  match text, h with
  | c :: rest, h =>
    rw [token, if_neg (hword c (head_of_startsNumeral h))]
    exact if_pos h

/-- Neither trivia nor the line of a hash bang starts as a numeral does. -/
theorem startsTrivia_of_startsNumeral {text : List Char} (h : startsNumeral text) :
    startsTrivia text = false ∧ text.head? ≠ some '#' := by
  have hmark : ∀ c ∈ '.' :: (List.range 10).map Nat.digitChar,
      isSpace c = false ∧ c ≠ '/' ∧ c ≠ '#' := List.all_iff_forall_prop.1 rfl
  match text, h with
  | c :: rest, h =>
    obtain ⟨hspace, hslash, hhash⟩ := hmark c (head_of_startsNumeral h)
    refine ⟨?_, fun heq => hhash (Option.some.inj heq)⟩
    unfold startsTrivia
    split
    case h_1 heq => exact absurd (List.cons.inj heq).1 hslash
    case h_2 heq => exact absurd (List.cons.inj heq).1 hslash
    case h_3 heq => obtain ⟨rfl, -⟩ := List.cons.inj heq; exact hspace
    case h_4 => rfl

theorem startsNumeral_text {d : DecimalNumeral} (h : d.WellFormed) : startsNumeral d.text := by
  have hfraction := h.isDigit_fraction
  unfold DecimalNumeral.text
  cases hwhole : d.whole with
  | cons c digits =>
    have hc := h.isDigit_whole c (hwhole ▸ List.mem_cons_self)
    exact (Bool.or_eq_true _ _).mpr (.inl hc)
  | nil =>
    have hstarts := h.starts hwhole
    unfold DecimalNumeral.fractionText
    cases hpoint : d.fraction with
    | none => rw [hpoint] at hstarts; exact absurd rfl hstarts
    | some digits =>
      rw [hpoint, Option.getD_some] at hfraction hstarts
      obtain ⟨c, digits, rfl⟩ := List.exists_cons_of_ne_nil hstarts
      have hc := hfraction c List.mem_cons_self
      simp [startsNumeral, hc]

/-- Only a letter behind a zero announces a base. -/
theorem announcedBase?_eq_none {text : List Char}
    (h : ∀ c rest, text = '0' :: c :: rest → c ∉ ['b', 'B', 'o', 'O', 'x', 'X']) :
    announcedBase? text = none := by
  unfold announcedBase?
  split <;> first | rfl | exact absurd (by decide) (h _ _ rfl)

/-- Nothing that follows a decimal numeral makes it one with a base. -/
theorem announcedBase?_text {d : DecimalNumeral} (h : d.WellFormed) {rest : List Char}
    (hrest : ¬ rest.head?.any continuesWord) : announcedBase? (d.text ++ rest) = none := by
  have hletters : ∀ c ∈ ['b', 'B', 'o', 'O', 'x', 'X'], continuesWord c :=
    List.all_iff_forall_prop.1 rfl
  refine announcedBase?_eq_none fun c tail heq hletter => ?_
  rcases h.second heq with rfl | rfl | ⟨-, hhead⟩
  · exact absurd hletter (by decide)
  · exact absurd hletter (by decide)
  · rw [hhead] at hrest
    exact hrest (hletters c hletter)

theorem token_decimal {d : DecimalNumeral} (h : d.WellFormed) {rest : List Char}
    (hrest : ¬ rest.head?.any continuesWord)
    (hpoint : d.fraction = none → d.exponent = none → rest.head? ≠ some '.') (mode : SlashMode) :
    token mode (d.text ++ rest) = .ok (.number, ⟨d.text, rest⟩) := by
  have hstarts := startsNumeral_mono (startsNumeral_text h) (List.prefix_append d.text rest)
  rw [token_of_startsNumeral hstarts, numeral, announcedBase?_text h hrest]
  exact decimal_text h hrest hpoint

theorem numeralEnd_extends {integer : Bool} {before rest : List Char} {kind : Kind} {l : Lexeme}
    (h : numeralEnd integer before rest = .ok (kind, l)) : before <+: l.text := by
  unfold numeralEnd at h
  split at h
  next kind' before' rest' hparts =>
  split at h
  case isTrue => cases h
  case isFalse =>
    cases h
    split at hparts <;> cases hparts
    · exact List.prefix_append ..
    · exact List.prefix_rfl

/-- A point behind digits is read with them, whatever follows. -/
theorem token_point {digits : List Char} (hne : digits ≠ []) (hdigits : ∀ c ∈ digits, c.isDigit)
    {mode : SlashMode} {rest : List Char} {kind : Kind} {l : Lexeme}
    (h : token mode (digits ++ '.' :: rest) = .ok (kind, l)) : digits ++ ['.'] <+: l.text := by
  have hpoint : ¬ ('.' :: rest).head?.any (isDigitOrSeparator 10) := Bool.false_ne_true
  have hwhole : ∀ c ∈ digits, isDigitOrSeparator 10 c :=
    fun c hc => isDigitOrSeparator_of_isDigit (hdigits c hc)
  have hstarts : startsNumeral (digits ++ '.' :: rest) := by
    obtain ⟨c, digits, rfl⟩ := List.exists_cons_of_ne_nil hne
    exact (Bool.or_eq_true _ _).mpr (.inl (hdigits c List.mem_cons_self))
  have hbase : announcedBase? (digits ++ '.' :: rest) = none := by
    refine announcedBase?_eq_none fun c tail heq hletter => ?_
    match digits with
    | [first] =>
      obtain ⟨rfl, -⟩ := List.cons.inj (List.cons.inj heq).2
      exact absurd hletter (by decide)
    | first :: second :: digits =>
      obtain ⟨rfl, -⟩ := List.cons.inj (List.cons.inj heq).2
      have hsecond := hdigits second (List.mem_cons_of_mem _ List.mem_cons_self)
      have hnone : ∀ c ∈ ['b', 'B', 'o', 'O', 'x', 'X'], c.isDigit = false :=
        List.all_iff_forall_prop.1 rfl
      rw [hnone second hletter] at hsecond
      cases hsecond
  rw [token_of_startsNumeral hstarts, numeral, hbase] at h
  simp only [decimal, span_append hwhole hpoint, bind, Except.bind] at h
  split at h
  case h_1 => cases h
  case h_2 read hread =>
    have hbefore : digits ++ ['.'] <+: digits ++ (fraction ('.' :: rest)).text :=
      (List.prefix_append_right_inj digits).2 ⟨_, rfl⟩
    exact hbefore.trans ((exponent_ok hread).2.trans (numeralEnd_extends h))

theorem token_hexadecimal (n : ℕ) {rest : List Char} (hrest : ¬ rest.head?.any continuesWord)
    (mode : SlashMode) :
    token mode ('0' :: 'x' :: Nat.toDigits 16 n ++ rest) =
      .ok (.number, ⟨'0' :: 'x' :: Nat.toDigits 16 n, rest⟩) := by
  have hdigits : ∀ c ∈ Nat.toDigits 16 n, isDigitOrSeparator 16 c := by
    intro c hc
    obtain ⟨value, hvalue⟩ := (digits_toDigits (by decide) n).forall c hc
    rw [isDigitOrSeparator, digitValue?_of_isDigit le_rfl hvalue]
    rfl
  have hspan : span (isDigitOrSeparator 16) (('0' :: 'x' :: Nat.toDigits 16 n ++ rest).drop 2) =
      ⟨Nat.toDigits 16 n, rest⟩ := span_append hdigits (not_digit_of_not_word le_rfl hrest)
  have hne : ¬ (Nat.toDigits 16 n).isEmpty = true := by simp
  rw [token_of_startsNumeral rfl]
  change radix 16 ('0' :: 'x' :: Nat.toDigits 16 n ++ rest) = _
  unfold radix
  dsimp only
  rw [hspan, if_neg hne, numeralEnd_of_not_word hrest]
  rfl

end ScriptMin.Lexer
