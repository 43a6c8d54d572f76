import ScriptMin.Proofs.Token.Numeral

/-!
# Separators of numerals

The lexer takes underscores anywhere among the digits of a numeral, and the reader of its value
refuses those that stand in a list of places. What is left (`SeparatorStands`) is between two
digits, and three places that the list leaves out: right after the mark of a base, right before the
letter of an exponent, and between that letter or its sign and a digit.
-/

namespace ScriptMin.Lexer

open Source Literal

/-! ## Where a separator stands -/

/-- A digit of a base. -/
def IsDigitOf (base : Nat) (c : Char) : Prop :=
  (digitValue? base c).isSome

/-- The places of a separator in a numeral of a base, by the texts before and after it. -/
inductive SeparatorStands : Nat → List Char → List Char → Prop where
  | between {base : Nat} {c d : Char} {before after : List Char} (hc : IsDigitOf base c)
      (hd : IsDigitOf base d) : SeparatorStands base (before ++ [c]) (d :: after)
  | afterMark {base : Nat} {mark : List Char} {d : Char} {after : List Char}
      (hmark : announcedBase? mark = some base) (hlength : mark.length = 2)
      (hd : IsDigitOf base d) : SeparatorStands base mark (d :: after)
  | beforeLetter {c letter : Char} {before after : List Char} (hc : IsDigitOf 10 c)
      (hletter : letter = 'e' ∨ letter = 'E') :
      SeparatorStands 10 (before ++ [c]) (letter :: after)
  | afterLetter {letter d : Char} {sign before after : List Char}
      (hletter : letter = 'e' ∨ letter = 'E') (hsign : sign = [] ∨ sign = ['+'] ∨ sign = ['-'])
      (hd : IsDigitOf 10 d) : SeparatorStands 10 (before ++ letter :: sign) (d :: after)

theorem SeparatorStands.append {base : Nat} {before after : List Char}
    (h : SeparatorStands base before after) (more : List Char) :
    SeparatorStands base before (after ++ more) := by
  cases h with
  | between hc hd => exact .between hc hd
  | afterMark hmark hlength hd => exact .afterMark hmark hlength hd
  | beforeLetter hc hletter => exact .beforeLetter hc hletter
  | afterLetter hletter hsign hd => exact .afterLetter hletter hsign hd

/-- A character of a run of digits that is no separator is a digit. -/
theorem isDigitOf_of_mem {base : Nat} {run : List Char}
    (hrun : ∀ c ∈ run, isDigitOrSeparator base c) {c : Char} (hmem : c ∈ run) (hc : c ≠ '_') :
    IsDigitOf base c := by
  rcases Bool.or_eq_true_iff.1 (hrun c hmem) with hdigit | hseparator
  · exact hdigit
  · exact absurd (beq_iff_eq.1 hseparator) hc

/-! ## The places that are refused -/

theorem contains_iff_infix {pattern text : List Char} :
    contains pattern text ↔ pattern <:+: text := by
  induction text with
  | nil => simp [contains]
  | cons c rest ih =>
    rw [contains, Bool.or_eq_true_iff, List.isPrefixOf_iff_prefix, ih, List.infix_cons_iff]

/-- In a numeral whose separators are not refused, there is a character on either side of each one,
and it is neither a separator nor a point. -/
theorem neighbours_of_misplacesSeparator {text before after : List Char}
    (h : misplacesSeparator true text = false) (htext : text = before ++ '_' :: after) :
    ∃ before' c d after', before = before' ++ [c] ∧ after = d :: after' ∧
      (c ≠ '_' ∧ c ≠ '.') ∧ d ≠ '_' ∧ d ≠ '.' := by
  simp only [misplacesSeparator, Bool.true_and, Bool.or_eq_false_iff, beq_eq_false_iff_ne] at h
  obtain ⟨⟨⟨hhead, hlast⟩, hdouble⟩, hbefore, hafter⟩ := h
  rw [Bool.eq_false_iff, ne_eq, contains_iff_infix] at hdouble hbefore hafter
  rcases List.eq_nil_or_concat before with rfl | ⟨before', c, rfl⟩
  · exact absurd (by simp [htext]) hhead
  cases after with
  | nil => exact absurd (by simp [htext]) hlast
  | cons d after' =>
    refine ⟨before', c, d, after', by simp, rfl, ⟨?_, ?_⟩, ?_, ?_⟩
    all_goals rintro rfl
    · exact hdouble ⟨before', d :: after', by simp [htext]⟩
    · exact hafter ⟨before', d :: after', by simp [htext]⟩
    · exact hdouble ⟨before' ++ [c], after', by simp [htext]⟩
    · exact hbefore ⟨before' ++ [c], after', by simp [htext]⟩

/-- A text without a point has no separator beside one. -/
theorem misplacesSeparator_of_no_point {text : List Char} (hpoint : '.' ∉ text) :
    misplacesSeparator true text = misplacesSeparator false text := by
  have hcontains : ∀ pattern : List Char, '.' ∈ pattern → contains pattern text = false := by
    intro pattern hpattern
    rw [Bool.eq_false_iff, ne_eq, contains_iff_infix]
    exact fun hwithin => hpoint (hwithin.subset hpattern)
  simp [misplacesSeparator, hcontains]

/-! ## The parts of a numeral -/

/-- The point of a numeral and the digits after it, if there is a point. -/
inductive IsFraction : List Char → Prop where
  | none : IsFraction []
  | point {digits : List Char} (hdigits : ∀ c ∈ digits, isDigitOrSeparator 10 c) :
      IsFraction ('.' :: digits)

/-- The exponent of a numeral, if there is one. -/
inductive IsExponent : List Char → Prop where
  | none : IsExponent []
  | letter {letter : Char} {sign digits : List Char} (hletter : letter = 'e' ∨ letter = 'E')
      (hsign : sign = [] ∨ sign = ['+'] ∨ sign = ['-'])
      (hdigits : ∀ c ∈ digits, isDigitOrSeparator 10 c) : IsExponent (letter :: sign ++ digits)

/-- What the lexer takes for a numeral of a base, without the `n` of a big integer. -/
inductive IsNumeral : Nat → List Char → Prop where
  | marked {base : Nat} {mark digits : List Char} (hmark : announcedBase? mark = some base)
      (hlength : mark.length = 2) (hdigits : ∀ c ∈ digits, isDigitOrSeparator base c) :
      IsNumeral base (mark ++ digits)
  | decimal {whole fraction exponent : List Char}
      (hwhole : ∀ c ∈ whole, isDigitOrSeparator 10 c) (hfraction : IsFraction fraction)
      (hexponent : IsExponent exponent) : IsNumeral 10 (whole ++ fraction ++ exponent)

/-- A character of a text that is cut in two is in one of the parts. -/
theorem append_eq_append_cons {before after s t : List Char} {c : Char}
    (h : s ++ t = before ++ c :: after) :
    (∃ s', s = before ++ c :: s' ∧ after = s' ++ t) ∨
      ∃ t', before = s ++ t' ∧ t = t' ++ c :: after := by
  rcases List.append_eq_append_iff.1 h with ⟨t', hbefore, ht⟩ | ⟨s', hs, hafter⟩
  · exact .inr ⟨t', hbefore, ht⟩
  · cases s' with
    | nil => exact .inr ⟨[], by simpa using hs.symm, by simpa using hafter.symm⟩
    | cons d s' =>
      obtain ⟨rfl, rfl⟩ := List.cons.inj hafter
      exact .inl ⟨s', hs, rfl⟩

section

variable {base : Nat} {before after run : List Char} {c d : Char}

/-- The last character of a text is in its last part. -/
theorem mem_of_append_eq {s t : List Char} (h : before ++ [c] = s ++ t) (ht : t ≠ []) : c ∈ t := by
  rcases List.eq_nil_or_concat' t with rfl | ⟨t, e, rfl⟩
  · exact absurd rfl ht
  · rw [← List.append_assoc] at h
    obtain ⟨-, hlast⟩ := List.append_inj' h rfl
    rw [← List.singleton_inj.1 hlast]
    exact List.mem_append_right t List.mem_cons_self

/-- Behind a digit of the whole part or the fraction there is a digit or the exponent. -/
theorem separatorStands_of_digit {rest : List Char} (hc : IsDigitOf 10 c)
    (hrun : ∀ e ∈ run, isDigitOrSeparator 10 e) (hrest : IsExponent rest)
    (hafter : d :: after = run ++ rest) (hd : d ≠ '_') :
    SeparatorStands 10 (before ++ [c]) (d :: after) := by
  cases run with
  | cons e run =>
    obtain ⟨rfl, -⟩ := List.cons.inj hafter
    exact .between hc (isDigitOf_of_mem hrun List.mem_cons_self hd)
  | nil =>
    cases hrest with
    | none => cases hafter
    | letter hletter =>
      obtain ⟨rfl, -⟩ := List.cons.inj hafter
      exact .beforeLetter hc hletter

/-- A separator in the exponent has a digit behind it. -/
theorem separatorStands_of_exponent {whole exponent : List Char} (hexponent : IsExponent exponent)
    (htext : exponent = run ++ '_' :: d :: after) (hbefore : before ++ [c] = whole ++ run)
    (hc : c ≠ '_') (hd : d ≠ '_') : SeparatorStands 10 (before ++ [c]) (d :: after) := by
  cases hexponent with
  | none => simp at htext
  | @letter letter sign digits hletter hsign hdigits =>
    rcases append_eq_append_cons htext with ⟨s, hs, -⟩ | ⟨ds, rfl, hds⟩
    · -- the letter and the sign are no separators
      have hmem : '_' ∈ letter :: sign := hs ▸ by simp
      rcases hletter with rfl | rfl <;> rcases hsign with rfl | rfl | rfl <;> simp at hmem
    · have hd' : IsDigitOf 10 d := isDigitOf_of_mem hdigits (by simp [hds]) hd
      rw [← List.append_assoc] at hbefore
      by_cases hne : ds = []
      · rw [hbefore, hne, List.append_nil]
        exact .afterLetter hletter hsign hd'
      · have hmem := mem_of_append_eq hbefore hne
        exact .between (isDigitOf_of_mem hdigits (by simp [hds, hmem]) hc) hd'

/-- A separator in the digits behind the mark of a base has a digit behind it. -/
theorem separatorStands_of_mark {mark digits : List Char} (hmark : announcedBase? mark = some base)
    (hlength : mark.length = 2) (hdigits : ∀ e ∈ digits, isDigitOrSeparator base e)
    (htext : mark ++ digits = before ++ [c] ++ '_' :: d :: after) (hc : c ≠ '_') (hd : d ≠ '_') :
    SeparatorStands base (before ++ [c]) (d :: after) := by
  rcases append_eq_append_cons htext with ⟨s, hs, -⟩ | ⟨ds, hbefore, hds⟩
  · -- neither character of a mark is a separator
    obtain ⟨rfl, rfl⟩ : before = [] ∧ s = [] := by
      have := congrArg List.length hs
      simp only [hlength, List.length_append, List.length_cons, List.length_nil] at this
      exact ⟨List.length_eq_zero_iff.1 (by omega), List.length_eq_zero_iff.1 (by omega)⟩
    rw [hs] at hmark
    simp [announcedBase?] at hmark
  · have hd' : IsDigitOf base d := isDigitOf_of_mem hdigits (by simp [hds]) hd
    by_cases hne : ds = []
    · rw [hbefore, hne, List.append_nil]
      exact .afterMark hmark hlength hd'
    · have hmem := mem_of_append_eq hbefore hne
      exact .between (isDigitOf_of_mem hdigits (by simp [hds, hmem]) hc) hd'

/-- Every separator that is not refused stands in one of the places. -/
theorem IsNumeral.separatorStands {text : List Char} (h : IsNumeral base text)
    (hplaced : misplacesSeparator true text = false) (htext : text = before ++ '_' :: after) :
    SeparatorStands base before after := by
  obtain ⟨before', c, d, after', rfl, rfl, ⟨hc, hpoint⟩, hd, hpoint'⟩ :=
    neighbours_of_misplacesSeparator hplaced htext
  cases h with
  | marked hmark hlength hdigits =>
    exact separatorStands_of_mark hmark hlength hdigits htext hc hd
  | @decimal whole fraction exponent hwhole hfraction hexponent =>
    rcases append_eq_append_cons htext with ⟨s, hs, hafter⟩ | ⟨run, hbefore, hrun⟩
    · rcases append_eq_append_cons hs with ⟨run, hrun, rfl⟩ | ⟨run, hbefore, hrun⟩
      · -- in the whole part
        have hc' : IsDigitOf 10 c := isDigitOf_of_mem hwhole (by simp [hrun]) hc
        have hdigits : ∀ e ∈ run, isDigitOrSeparator 10 e :=
          fun e he => hwhole e (by simp [hrun, he])
        cases hfraction with
        | none => exact separatorStands_of_digit hc' hdigits hexponent (by simpa using hafter) hd
        | point =>
          cases run with
          | nil => exact absurd (List.cons.inj hafter).1 hpoint'
          | cons e run =>
            obtain ⟨rfl, -⟩ := List.cons.inj hafter
            exact .between hc' (isDigitOf_of_mem hdigits List.mem_cons_self hd)
      · -- in the fraction
        cases hfraction with
        | none => simp at hrun
        | @point digits hdigits =>
          rcases run with _ | ⟨point, run⟩
          · cases hrun
          obtain ⟨rfl, rfl⟩ := List.cons.inj hrun
          have hc' : IsDigitOf 10 c := by
            -- it is the point or behind it, and it is not the point
            have hmem : c ∈ run := (List.mem_cons.1
              (mem_of_append_eq hbefore (List.cons_ne_nil _ _))).resolve_left hpoint
            exact isDigitOf_of_mem hdigits (by simp [hmem]) hc
          have hrun : ∀ e ∈ s, isDigitOrSeparator 10 e := fun e he => hdigits e (by simp [he])
          exact separatorStands_of_digit hc' hrun hexponent hafter hd
    · exact separatorStands_of_exponent hexponent hrun hbefore hc hd

end

/-! ## Numerals of the lexer -/

theorem point_not_mem_digits {base : Nat} (hbase : base ≤ 16) {run : List Char}
    (hrun : ∀ c ∈ run, isDigitOrSeparator base c) : '.' ∉ run := by
  intro hpoint
  have hdigit := hrun '.' hpoint
  have hvalue : digitValue? base '.' = none := if_neg (Nat.not_lt.2 hbase)
  rw [isDigitOrSeparator, hvalue] at hdigit
  cases hdigit

theorem fraction_isFraction (text : List Char) : IsFraction (fraction text).text := by
  unfold fraction
  split
  · exact .point fun c hc => mem_span hc
  · exact .none

theorem exponentSign_text (text : List Char) :
    (exponentSign text).text = [] ∨ (exponentSign text).text = ['+'] ∨
      (exponentSign text).text = ['-'] := by
  unfold exponentSign
  split
  · exact .inr (.inl rfl)
  · exact .inr (.inr rfl)
  · exact .inl rfl

theorem exponent_isExponent {before text : List Char} {l : Lexeme}
    (h : exponent before text = .ok l) : ∃ e, l.text = before ++ e ∧ IsExponent e := by
  unfold exponent at h
  split at h
  case h_1 =>
    cases h
    exact ⟨[], by simp, .none⟩
  case h_2 c rest =>
    split at h
    case isFalse =>
      cases h
      exact ⟨[], by simp, .none⟩
    case isTrue hletter =>
      simp only at h
      split at h
      · cases h
      · cases h
        let digits := span (isDigitOrSeparator 10) (exponentSign rest).rest
        have hletter : c = 'e' ∨ c = 'E' := by simpa using hletter
        refine ⟨c :: (exponentSign rest).text ++ digits.text, by simp [Lexeme.after, digits], ?_⟩
        exact .letter hletter (exponentSign_text rest) fun d hd => mem_span hd

/-- The mark of a base is two characters, neither of them a point. -/
theorem announcedBase?_eq_some {text : List Char} {base : Nat}
    (h : announcedBase? text = some base) :
    base ≤ 16 ∧ (text.take 2).length = 2 ∧ '.' ∉ text.take 2 ∧
      ∀ more, announcedBase? (text.take 2 ++ more) = some base := by
  unfold announcedBase? at h
  split at h
  case h_7 => cases h
  all_goals
    cases h
    exact ⟨by decide, rfl, by simp, fun more => rfl⟩

/-- A text announces no base if one that it is the start of does not. -/
theorem announcedBase?_eq_none_of_append {before rest : List Char}
    (h : announcedBase? (before ++ rest) = none) : announcedBase? before = none := by
  by_contra hsome
  obtain ⟨base, hbase⟩ := Option.ne_none_iff_exists'.1 hsome
  obtain ⟨-, -, -, hmark⟩ := announcedBase?_eq_some hbase
  rw [← List.take_append_drop 2 before, List.append_assoc, hmark] at h
  cases h

/-- The `n` of a big integer announces nothing. -/
theorem announcedBase?_append_n (digits : List Char) :
    announcedBase? (digits ++ ['n']) = announcedBase? digits := by
  match digits with
  | [] => rfl
  | [c] =>
    show announcedBase? [c, 'n'] = announcedBase? [c]
    simp [announcedBase?]
  | c :: d :: rest =>
    show announcedBase? (c :: d :: (rest ++ ['n'])) = _
    by_cases hc : c = '0'
    · subst hc
      by_cases hd : d = 'b' ∨ d = 'B' ∨ d = 'o' ∨ d = 'O' ∨ d = 'x' ∨ d = 'X'
      · rcases hd with rfl | rfl | rfl | rfl | rfl | rfl <;> rfl
      · simp only [not_or] at hd
        simp [announcedBase?, hd]
    · simp [announcedBase?, hc]

/-- The end of a numeral adds nothing to what was read before, or the `n` of a big integer. -/
theorem numeralEnd_text {integer : Bool} {before rest : List Char} {kind : Kind} {l : Lexeme}
    (h : numeralEnd integer before rest = .ok (kind, l)) :
    kind = .number ∧ l.text = before ∨ kind = .bigInt ∧ integer ∧ l.text = before ++ ['n'] := by
  unfold numeralEnd at h
  split at h
  case h_1 kind' before' rest' hparts =>
    split at h
    · cases h
    · cases h
      split at hparts
      · cases hparts
        exact .inr ⟨rfl, rfl, rfl⟩
      · cases hparts
        exact .inl ⟨rfl, rfl⟩

/-- What is read of a numeral before its end: a numeral of the base that it announces, without a
point if it may end as a big integer. -/
theorem numeral_isNumeral {text : List Char} {kind : Kind} {l : Lexeme}
    (h : numeral text = .ok (kind, l)) :
    ∃ integer before rest, numeralEnd integer before rest = .ok (kind, l) ∧
      IsNumeral ((announcedBase? before).getD 10) before ∧ (integer → '.' ∉ before) := by
  unfold numeral at h
  split at h
  case h_1 base hbase =>
    obtain ⟨hle, hlength, hpoint, hmark⟩ := announcedBase?_eq_some hbase
    unfold radix at h
    simp only at h
    split at h
    · cases h
    · have hdigits : ∀ c ∈ (span (isDigitOrSeparator base) (text.drop 2)).text,
          isDigitOrSeparator base c := fun c hc => mem_span hc
      refine ⟨_, _, _, h, ?_, fun _ => ?_⟩
      · rw [hmark, Option.getD_some]
        exact .marked (by simpa using hmark []) hlength hdigits
      · rw [List.mem_append, not_or]
        exact ⟨hpoint, point_not_mem_digits hle hdigits⟩
  case h_2 hnone =>
    simp only [decimal, bind, Except.bind] at h
    split at h
    case h_1 => cases h
    case h_2 read hread =>
      let whole := span (isDigitOrSeparator 10) text
      have hwhole : ∀ c ∈ whole.text, isDigitOrSeparator 10 c := fun c hc => mem_span hc
      obtain ⟨e, hread', he⟩ := exponent_isExponent hread
      have hsplits : read.text ++ read.rest = text := by
        have hfraction := fraction_splits whole.rest
        have hspan := span_splits (isDigitOrSeparator 10) text
        obtain ⟨hexponent, -⟩ := exponent_ok hread
        unfold Lexeme.Splits at *
        rw [hexponent, List.append_assoc, hfraction, hspan]
      refine ⟨_, _, _, h, ?_, fun hinteger => ?_⟩
      · rw [announcedBase?_eq_none_of_append (hsplits ▸ hnone), Option.getD_none, hread']
        exact .decimal hwhole (fraction_isFraction _) he
      · -- nothing is behind the whole part
        have hlength : read.text.length = whole.text.length := beq_iff_eq.1 hinteger
        rw [hread', List.append_assoc, List.length_append, Nat.add_eq_left] at hlength
        rw [hread', List.append_assoc, List.length_eq_zero_iff.1 hlength, List.append_nil]
        exact point_not_mem_digits (by decide) hwhole

/-- Only a numeral is a number or a big integer. -/
theorem numeral_of_token {mode : SlashMode} {text : List Char} {kind : Kind} {l : Lexeme}
    (h : token mode text = .ok (kind, l)) (hkind : kind = .number ∨ kind = .bigInt) :
    numeral text = .ok (kind, l) := by
  obtain ⟨hsplits, hspells, -⟩ := token_ok h
  have hstarts : startsNumeral l.text := by
    rcases hkind with rfl | rfl
    · exact hspells
    · obtain ⟨digits, hdigits, hstarts⟩ := hspells
      exact startsNumeral_mono hstarts ⟨['n'], hdigits.symm⟩
  rwa [token_of_startsNumeral (startsNumeral_mono hstarts ⟨l.rest, hsplits⟩)] at h

/-! ## Tokens with a value -/

/-- The value of a number or of a big integer can be read. -/
def HasNumericValue (kind : Kind) (text : List Char) : Prop :=
  kind = .number ∧ (numberValue? text).isSome ∨ kind = .bigInt ∧ (bigIntDigits? text).isSome

theorem misplacesSeparator_of_numberValue? {text : List Char} (h : (numberValue? text).isSome) :
    misplacesSeparator true text = false := by
  by_contra hplaced
  rw [numberValue?, if_pos (by simpa using hplaced)] at h
  cases h

theorem misplacesSeparator_of_bigIntDigits? {digits : List Char}
    (h : (bigIntDigits? (digits ++ ['n'])).isSome) : misplacesSeparator false digits = false := by
  by_contra hplaced
  have hdigits : (digits ++ ['n']).dropLast = digits := List.dropLast_concat
  rw [bigIntDigits?, hdigits, if_pos (by simpa using hplaced)] at h
  cases h

/-- The separators of a numeral with a value stand in one of the places. -/
theorem separatorStands_of_numeral {text : List Char} {kind : Kind} {l : Lexeme}
    (h : numeral text = .ok (kind, l)) (hvalue : HasNumericValue kind l.text)
    {before after : List Char} (htext : l.text = before ++ '_' :: after) :
    SeparatorStands ((announcedBase? l.text).getD 10) before after := by
  obtain ⟨integer, digits, rest, hend, hnumeral, hpoint⟩ := numeral_isNumeral h
  rcases numeralEnd_text hend with ⟨rfl, heq⟩ | ⟨rfl, hinteger, heq⟩
  · have hsome : (numberValue? l.text).isSome := (hvalue.resolve_right nofun).2
    rw [heq] at hsome htext ⊢
    exact hnumeral.separatorStands (misplacesSeparator_of_numberValue? hsome) htext
  · have hsome : (bigIntDigits? l.text).isSome := (hvalue.resolve_left nofun).2
    rw [heq] at hsome htext
    have hplaced : misplacesSeparator true digits = false := by
      rw [misplacesSeparator_of_no_point (hpoint hinteger)]
      exact misplacesSeparator_of_bigIntDigits? hsome
    rw [heq, announcedBase?_append_n]
    rcases append_eq_append_cons htext with ⟨s, hs, rfl⟩ | ⟨s, -, hs⟩
    · exact (hnumeral.separatorStands hplaced hs).append ['n']
    · -- the separator is not the `n` behind the digits
      cases s with
      | nil => cases hs
      | cons c s => simp at hs

end ScriptMin.Lexer

namespace ScriptMin

open Source Lexer

/-- In a number or a big integer whose value is read, each separator stands between two digits of
the base, behind the mark of the base, before the letter of the exponent, or behind that letter or
its sign. It is never at an end, beside the point or another separator, or before the `n`. -/
theorem Cursor.next_separatorStands {mode : SlashMode} {c c' : Cursor} {t : Token}
    (h : c.next mode = .ok (t, c')) (hvalue : HasNumericValue t.kind t.text.toList)
    {before after : List Char} (htext : t.text.toList = before ++ '_' :: after) :
    SeparatorStands ((announcedBase? t.text.toList).getD 10) before after := by
  obtain ⟨trivia, kind, l, -, htoken, rfl, -⟩ := next_eq_ok.1 h
  rw [String.toList_ofList] at hvalue htext ⊢
  have hkind : kind = .number ∨ kind = .bigInt := hvalue.imp And.left And.left
  exact separatorStands_of_numeral (numeral_of_token htoken hkind) hvalue htext

/-- One separator stands between digits and one before the exponent. -/
theorem Cursor.next_separatorStands_exponent :
    ∃ t c', Cursor.next .division ⟨" 1_0_e5;".toList, 3⟩ = .ok (t, c') ∧
      HasNumericValue t.kind t.text.toList ∧ t.text.toList = "1".toList ++ '_' :: "0_e5".toList ∧
      SeparatorStands 10 "1".toList "0_e5".toList ∧
      SeparatorStands 10 "1_0".toList "e5".toList := by
  have hnext : Cursor.next .division ⟨" 1_0_e5;".toList, 3⟩ =
      .ok (⟨.number, "1_0_e5", ⟨4, 10⟩, false⟩, ⟨[';'], 10⟩) := by decide +kernel
  have hvalue : HasNumericValue .number "1_0_e5".toList := .inl ⟨rfl, by decide +kernel⟩
  have hfirst : "1_0_e5".toList = "1".toList ++ '_' :: "0_e5".toList := by decide +kernel
  have hsecond : "1_0_e5".toList = "1_0".toList ++ '_' :: "e5".toList := by decide +kernel
  exact ⟨_, _, hnext, hvalue, hfirst, next_separatorStands hnext hvalue hfirst,
    next_separatorStands hnext hvalue hsecond⟩

end ScriptMin
