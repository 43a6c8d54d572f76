import ScriptMin.Proofs.Token.LongestWord

/-!
# What a scan reads

Every scan splits its text into a lexeme and what is left, with nothing lost between them
(`Lexeme.Splits`). What the lexeme looks like depends on the kind of the token, and `Spells` lists
the texts of each kind. A scan that gives a token gives both (`Reads`). There is one lemma for each
scan, and `token_ok` chooses among them as `token` does.
-/

namespace ScriptMin.Lexer

open Source

/-! ## The texts of a kind -/

/-- The start of a numeral: a digit, or a point before a digit. -/
def startsNumeral : List Char → Bool
  | c :: rest => c.isDigit || (c == '.' && rest.head?.any Char.isDigit)
  | [] => false

/-- A character that can start a word, and characters that go on a word. -/
def IsWord (text : List Char) : Prop :=
  ∃ c rest, text = c :: rest ∧ (isIdentifierStart c ∨ isAscii c = false) ∧
    ∀ d ∈ rest, continuesWord d

/-- The texts that a token of a kind can have. -/
def Spells : Kind → List Char → Prop
  | .punctuator p, text => text = p.spelling
  | .word w, text => IsWord text ∧ Word.ofString? (String.ofList text) = some w
  | .identifier, text => IsWord text ∧ Word.ofString? (String.ofList text) = none
  | .number, text => startsNumeral text
  | .bigInt, text => ∃ digits, text = digits ++ ['n'] ∧ startsNumeral digits
  | .string, text =>
    ∃ quote body, (quote = '\x22' ∨ quote = '\x27') ∧ text = quote :: body ++ [quote]
  | .regex, text =>
    ∃ body flags, text = '/' :: body ++ '/' :: flags ∧ ∀ c ∈ flags, isIdentifierPart c
  | .template isLast, text =>
    ∃ body, text = '\x60' :: body ++ if isLast then ['\x60'] else ['$', '\x7b']
  | .privateName, text => ∃ name, text = '#' :: name ∧ IsWord name
  | .endOfInput, text => text = []

theorem Punctuator.spelling_ne_nil (p : Punctuator) : p.spelling ≠ [] := by
  cases p <;> exact List.cons_ne_nil _ _

/-- The end of the input is the only token without a text. -/
theorem Spells.eq_nil_iff {kind : Kind} {text : List Char} (h : Spells kind text) :
    text = [] ↔ kind = .endOfInput := by
  cases kind with
  | punctuator p =>
    cases h
    simpa using Punctuator.spelling_ne_nil p
  | word w => obtain ⟨⟨c, rest, rfl, -⟩, -⟩ := h; simp
  | identifier => obtain ⟨⟨c, rest, rfl, -⟩, -⟩ := h; simp
  | number => cases text <;> simp_all [Spells, startsNumeral]
  | bigInt => obtain ⟨digits, rfl, -⟩ := h; simp
  | string => obtain ⟨quote, body, -, rfl⟩ := h; simp
  | regex => obtain ⟨body, flags, rfl, -⟩ := h; simp
  | template isLast => obtain ⟨body, rfl⟩ := h; simp
  | privateName => obtain ⟨name, rfl, -⟩ := h; simp
  | endOfInput => exact iff_of_true h rfl

/-- A text that starts with the mark of a base is a number. -/
theorem Spells.isNumber {kind : Kind} {text : List Char} (h : Spells kind text)
    (hbase : (announcedBase? text).isSome) : kind = .number ∨ kind = .bigInt := by
  obtain ⟨rest, rfl⟩ : ∃ rest, text = '0' :: rest := by
    unfold announcedBase? at hbase
    split at hbase
    case h_7 => cases hbase
    all_goals exact ⟨_, rfl⟩
  have hword : ¬ IsWord ('0' :: rest) := by
    rintro ⟨c, _, hc, hstart, -⟩
    cases hc
    exact absurd hstart (by decide)
  cases kind with
  | number => exact .inl rfl
  | bigInt => exact .inr rfl
  | word w => exact absurd h.1 hword
  | identifier => exact absurd h.1 hword
  | punctuator p => cases p <;> cases h
  | string =>
    obtain ⟨quote, body, hquote, heq⟩ := h
    cases heq
    exact absurd hquote (by decide)
  | regex => obtain ⟨body, flags, heq, -⟩ := h; cases heq
  | template isLast => obtain ⟨body, heq⟩ := h; cases heq
  | privateName => obtain ⟨name, heq, -⟩ := h; cases heq
  | endOfInput => cases h

/-! ## Splitting a text -/

/-- The lexeme and what is left make up the text. -/
def Lexeme.Splits (l : Lexeme) (text : List Char) : Prop :=
  l.text ++ l.rest = text

namespace Lexeme.Splits

variable {l : Lexeme} {text before : List Char}

theorem after (h : l.Splits text) : (l.after before).Splits (before ++ text) := by
  unfold Splits Lexeme.after at *
  rw [List.append_assoc, h]

theorem nothing : Lexeme.Splits ⟨[], text⟩ text := rfl

end Lexeme.Splits

/-- A token of a kind is split off the text, and it is not the end of the input. -/
structure Reads (kind : Kind) (l : Lexeme) (text : List Char) : Prop where
  splits : l.Splits text
  spells : Spells kind l.text
  notEnd : kind ≠ .endOfInput

theorem span_splits (p : Char → Bool) (text : List Char) : (span p text).Splits text :=
  List.takeWhile_append_dropWhile

theorem mem_span {p : Char → Bool} {text : List Char} {c : Char} (h : c ∈ (span p text).text) :
    p c :=
  List.mem_takeWhile_imp h

/-- A scan that goes on after what it has read. -/
theorem map_after_ok {r : Except Refusal Lexeme} {before : List Char} {l : Lexeme}
    (h : r.map (·.after before) = .ok l) : ∃ l', r = .ok l' ∧ l = l'.after before := by
  cases r with
  | error e => cases h
  | ok l' => cases h; exact ⟨l', rfl, rfl⟩

/-! ## Words and private names -/

theorem span_after_isWord {c : Char} {rest : List Char}
    (hc : isIdentifierStart c ∨ isAscii c = false) :
    IsWord ((span continuesWord rest).after [c]).text :=
  ⟨c, _, rfl, hc, fun _ hd => mem_span hd⟩

theorem classifiedWord_ok {c : Char} {rest : List Char} {kind : Kind} {l : Lexeme}
    (hc : isIdentifierStart c ∨ isAscii c = false)
    (h : classifiedWord (c :: rest) = .ok (kind, l)) :
    Reads kind l (c :: rest) := by
  rw [classifiedWord_eq] at h
  cases h
  have hword : IsWord ((span continuesWord rest).after [c]).text := span_after_isWord hc
  have hsplits : ((span continuesWord rest).after [c]).Splits (c :: rest) :=
    (span_splits continuesWord rest).after
  show Reads (wordKind _) _ _
  unfold wordKind
  split
  · exact ⟨hsplits, ⟨hword, ‹_›⟩, nofun⟩
  · exact ⟨hsplits, ⟨hword, ‹_›⟩, nofun⟩

theorem privateName_ok {rest : List Char} {l : Lexeme} (h : privateName ('#' :: rest) = .ok l) :
    Reads .privateName l ('#' :: rest) := by
  cases rest with
  | nil => cases h
  | cons c rest =>
    simp only [privateName] at h
    split at h
    case isFalse => cases h
    case isTrue hc =>
      cases h
      have hstart : isIdentifierStart c ∨ isAscii c = false := by simpa using hc
      exact ⟨(span_splits continuesWord rest).after, ⟨_, rfl, span_after_isWord hstart⟩, nofun⟩

/-! ## Numerals -/

theorem startsNumeral_mono {s t : List Char} (hs : startsNumeral s) (h : s <+: t) :
    startsNumeral t := by
  obtain ⟨rest, rfl⟩ := h
  match s, hs with
  | [c], hs =>
    have hc : c.isDigit := by simpa [startsNumeral] using hs
    simp [startsNumeral, hc]
  | _ :: _ :: _, hs => exact hs

/-- A numeral ends with what was read before, or with an `n` behind it. -/
theorem numeralEnd_ok {integer : Bool} {before rest : List Char} {kind : Kind} {l : Lexeme}
    (h : numeralEnd integer before rest = .ok (kind, l)) (hbefore : startsNumeral before) :
    Reads kind l (before ++ rest) := by
  unfold numeralEnd at h
  split at h
  case h_1 kind' before' rest' hparts =>
    split at h
    · cases h
    · cases h
      split at hparts
      · cases hparts
        exact ⟨by simp [Lexeme.Splits], ⟨before, rfl, hbefore⟩, nofun⟩
      · cases hparts
        exact ⟨rfl, hbefore, nofun⟩

theorem fraction_splits (text : List Char) : (fraction text).Splits text := by
  unfold fraction
  split
  · exact (span_splits _ _).after
  · exact .nothing

theorem exponentSign_splits (text : List Char) : (exponentSign text).Splits text := by
  unfold exponentSign
  split <;> rfl

/-- An exponent goes on what was read before it. -/
theorem exponent_ok {before text : List Char} {l : Lexeme} (h : exponent before text = .ok l) :
    l.Splits (before ++ text) ∧ before <+: l.text := by
  unfold exponent at h
  split at h
  case h_1 => cases h; exact ⟨rfl, List.prefix_rfl⟩
  case h_2 c rest =>
    split at h
    case isFalse => cases h; exact ⟨rfl, List.prefix_rfl⟩
    case isTrue =>
      simp only at h
      split at h
      · cases h
      · cases h
        have hsign := exponentSign_splits rest
        have hdigits := span_splits (isDigitOrSeparator 10) (exponentSign rest).rest
        unfold Lexeme.Splits at *
        constructor
        · simp only [Lexeme.after, List.append_assoc, List.cons_append, hdigits, hsign]
        · simp only [Lexeme.after, List.append_assoc]
          exact List.prefix_append ..

theorem isDigitOrSeparator_of_isDigit {c : Char} (h : c.isDigit) : isDigitOrSeparator 10 c := by
  have hrange : 48 ≤ c.toNat ∧ c.toNat ≤ 57 := by
    simpa [Char.isDigit, UInt32.le_iff_toNat_le] using h
  have hvalue : c.toNat - 48 < 10 := by omega
  simp [isDigitOrSeparator, digitValue?, h, hvalue]

/-- The digits of a numeral and its fraction, one of which there is. -/
theorem startsNumeral_whole_fraction {text : List Char} (h : startsNumeral text) :
    startsNumeral ((span (isDigitOrSeparator 10) text).text ++
      (fraction (span (isDigitOrSeparator 10) text).rest).text) := by
  cases text with
  | nil => cases h
  | cons c rest =>
    by_cases hc : c.isDigit
    · simp [span, startsNumeral, isDigitOrSeparator_of_isDigit hc, hc]
    · -- the text starts with a point, which is no digit, and a digit is next
      obtain ⟨rfl, hdigit⟩ : c = '.' ∧ rest.head?.any Char.isDigit := by
        simpa [startsNumeral, hc] using h
      have hpoint : isDigitOrSeparator 10 '.' = false := by decide
      cases rest with
      | nil => cases hdigit
      | cons d rest =>
        have hd : d.isDigit := by simpa using hdigit
        simp [span, hpoint, fraction, Lexeme.after, startsNumeral,
          isDigitOrSeparator_of_isDigit hd, hd]

theorem decimal_ok {text : List Char} {kind : Kind} {l : Lexeme}
    (h : decimal text = .ok (kind, l)) (htext : startsNumeral text) :
    Reads kind l text := by
  simp only [decimal, bind, Except.bind] at h
  split at h
  case h_1 => cases h
  case h_2 read hread =>
    obtain ⟨hsplits, hstarts⟩ := exponent_ok hread
    have hbefore := startsNumeral_mono (startsNumeral_whole_fraction htext) hstarts
    have hend := numeralEnd_ok h hbefore
    have hwhole := span_splits (isDigitOrSeparator 10) text
    have hfraction := fraction_splits (span (isDigitOrSeparator 10) text).rest
    unfold Lexeme.Splits at *
    rwa [hsplits, List.append_assoc, hfraction, hwhole] at hend

theorem radix_ok {base : Nat} {text : List Char} {kind : Kind} {l : Lexeme}
    (h : radix base text = .ok (kind, l)) (htext : startsNumeral (text.take 2)) :
    Reads kind l text := by
  unfold radix at h
  simp only at h
  split at h
  · cases h
  · have hend := numeralEnd_ok h (startsNumeral_mono htext (List.prefix_append ..))
    have hdigits := span_splits (isDigitOrSeparator base) (text.drop 2)
    unfold Lexeme.Splits at *
    rwa [List.append_assoc, hdigits, List.take_append_drop] at hend

theorem numeral_ok {text : List Char} {kind : Kind} {l : Lexeme}
    (h : numeral text = .ok (kind, l)) (htext : startsNumeral text) :
    Reads kind l text := by
  unfold numeral at h
  split at h
  case h_2 => exact decimal_ok h htext
  case h_1 base hbase =>
    refine radix_ok h ?_
    -- the mark of a base starts with a zero
    unfold announcedBase? at hbase
    split at hbase
    case h_7 => cases hbase
    all_goals exact rfl

/-! ## Regular expressions, strings and templates -/

theorem regexBody_ok {inClass : Bool} {offset : Nat} {text : List Char} {l : Lexeme}
    (h : regexBody inClass offset text = .ok l) :
    l.Splits text ∧ ∃ body, l.text = body ++ ['/'] := by
  fun_induction regexBody inClass offset text generalizing l with
  | case1 => cases h
  | case2 => cases h
  | case3 => cases h
  | case4 inClass offset c rest hc ih =>
    obtain ⟨l', h', rfl⟩ := map_after_ok h
    obtain ⟨hsplits, body, hbody⟩ := ih h'
    exact ⟨hsplits.after, '\\' :: c :: body, by simp [Lexeme.after, hbody]⟩
  | case5 => cases h
  | case6 inClass offset c rest _ _ hline hslash =>
    cases h
    obtain ⟨rfl, -⟩ : c = '/' ∧ inClass = false := by simpa using hslash
    exact ⟨rfl, [], rfl⟩
  | case7 inClass offset c rest =>
    rename_i ih
    obtain ⟨l', h', rfl⟩ := map_after_ok h
    obtain ⟨hsplits, body, hbody⟩ := ih h'
    exact ⟨hsplits.after, c :: body, by simp [Lexeme.after, hbody]⟩

theorem regex_ok {rest : List Char} {l : Lexeme} (h : regex ('/' :: rest) = .ok l) :
    Reads .regex l ('/' :: rest) := by
  simp only [regex, bind, Except.bind] at h
  split at h
  case h_1 => cases h
  case h_2 read hread =>
    cases h
    obtain ⟨hsplits, body, hbody⟩ := regexBody_ok hread
    have hflags := span_splits isIdentifierPart read.rest
    constructor
    case splits =>
      unfold Lexeme.Splits Lexeme.after at *
      rw [List.append_assoc, hflags, List.cons_append, hsplits]
    case spells =>
      refine ⟨body, (span isIdentifierPart read.rest).text, ?_, fun c hc => mem_span hc⟩
      simp [Lexeme.after, hbody]
    case notEnd => simp

theorem stringBody_ok {quote : Char} {segment offset : Nat} {refused : Bool} {text : List Char}
    {l : Lexeme} (h : stringBody quote segment offset refused text = .ok l) :
    l.Splits text ∧ ∃ body, l.text = body ++ [quote] := by
  fun_induction stringBody quote segment offset refused text generalizing l with
  | case1 => cases h
  | case2 => cases h
  | case3 => cases h
  | case4 segment offset refused hrefused rest ih =>
    obtain ⟨l', h', rfl⟩ := map_after_ok h
    obtain ⟨hsplits, body, hbody⟩ := ih h'
    exact ⟨hsplits.after, '\\' :: '\r' :: '\n' :: body, by simp [Lexeme.after, hbody]⟩
  | case5 segment offset refused hrefused c rest =>
    rename_i ih
    obtain ⟨l', h', rfl⟩ := map_after_ok h
    obtain ⟨hsplits, body, hbody⟩ := ih h'
    exact ⟨hsplits.after, '\\' :: c :: body, by simp [Lexeme.after, hbody]⟩
  | case6 => cases h
  | case7 segment offset refused c rest hc hquote hrefused =>
    cases h
    exact ⟨rfl, [], by simpa using hquote⟩
  | case8 => cases h
  | case9 segment offset refused c rest =>
    rename_i ih
    obtain ⟨l', h', rfl⟩ := map_after_ok h
    obtain ⟨hsplits, body, hbody⟩ := ih h'
    exact ⟨hsplits.after, c :: body, by simp [Lexeme.after, hbody]⟩

theorem string_ok {quote : Char} {rest : List Char} {l : Lexeme}
    (hquote : quote = '\x22' ∨ quote = '\x27') (h : string (quote :: rest) = .ok l) :
    Reads .string l (quote :: rest) := by
  obtain ⟨l', h', rfl⟩ := map_after_ok h
  obtain ⟨hsplits, body, hbody⟩ := stringBody_ok h'
  exact ⟨hsplits.after, ⟨quote, body, hquote, by simp [Lexeme.after, hbody]⟩, nofun⟩

theorem map_after_snd_ok {r : Except Refusal (Bool × Lexeme)} {before : List Char} {isLast : Bool}
    {l : Lexeme} (h : (r.map fun (isLast, l) => (isLast, l.after before)) = .ok (isLast, l)) :
    ∃ l', r = .ok (isLast, l') ∧ l = l'.after before := by
  cases r with
  | error e => cases h
  | ok read => cases h; exact ⟨read.2, rfl, rfl⟩

theorem templateBody_ok {text : List Char} {isLast : Bool} {l : Lexeme}
    (h : templateBody text = .ok (isLast, l)) :
    l.Splits text ∧ ∃ body, l.text = body ++ if isLast then ['\x60'] else ['$', '\x7b'] := by
  fun_induction templateBody text generalizing l with
  | case1 => cases h
  | case2 => cases h; exact ⟨rfl, [], rfl⟩
  | case3 => cases h; exact ⟨rfl, [], rfl⟩
  | case4 => cases h
  | case5 c rest ih =>
    obtain ⟨l', h', rfl⟩ := map_after_snd_ok h
    obtain ⟨hsplits, body, hbody⟩ := ih h'
    exact ⟨hsplits.after, '\\' :: c :: body, by simp [Lexeme.after, hbody]⟩
  | case6 c rest _ _ _ _ ih =>
    obtain ⟨l', h', rfl⟩ := map_after_snd_ok h
    obtain ⟨hsplits, body, hbody⟩ := ih h'
    exact ⟨hsplits.after, c :: body, by simp [Lexeme.after, hbody]⟩

/-! ## Punctuators -/

theorem punctuator_ok {text : List Char} {kind : Kind} {l : Lexeme}
    (h : punctuator text = .ok (kind, l)) : Reads kind l text := by
  unfold punctuator at h
  split at h
  case h_1 => cases h
  case h_2 p hlongest =>
    -- a question mark is cut off `?.`, so either punctuator is one that the text starts with
    have hp := Punctuator.longest?_prefix hlongest
    simp only at h
    cases h
    refine ⟨List.take_append_drop .., (List.prefix_iff_eq_take.1 ?_).symm, nofun⟩
    split
    case h_1 a b c rest =>
      split
      · exact List.IsPrefix.trans ⟨['.'], rfl⟩ hp
      · exact hp
    case h_2 => exact hp

/-! ## One token -/

/-- Where there is a character there is a token. -/
theorem token_cons_ok {mode : SlashMode} {c : Char} {rest : List Char} {kind : Kind} {l : Lexeme}
    (h : token mode (c :: rest) = .ok (kind, l)) : Reads kind l (c :: rest) := by
  simp only [token] at h
  split at h
  case isTrue hword =>
    refine classifiedWord_ok ?_ h
    simpa [or_comm] using hword
  split at h
  case isTrue hnumeral => exact numeral_ok h (by simpa [startsNumeral] using hnumeral)
  split at h
  case isTrue hquote =>
    cases hread : string (c :: rest) with
    | error e => rw [hread] at h; cases h
    | ok l' =>
      rw [hread] at h
      cases h
      exact string_ok (by simpa using hquote) hread
  split at h
  case isTrue hmark =>
    cases hread : templateBody rest with
    | error e => rw [hread] at h; cases h
    | ok read =>
      rw [hread] at h
      cases h
      obtain rfl : c = '\x60' := by simpa using hmark
      obtain ⟨hsplits, body, hbody⟩ := templateBody_ok hread
      exact ⟨hsplits.after, ⟨body, by simp [Lexeme.after, hbody]⟩, nofun⟩
  split at h
  case isTrue hmark =>
    obtain rfl : c = '#' := by simpa using hmark
    cases hread : privateName ('#' :: rest) with
    | error e => rw [hread] at h; cases h
    | ok l' =>
      rw [hread] at h
      cases h
      exact privateName_ok hread
  split at h
  case isTrue hslash =>
    obtain ⟨rfl, -⟩ : c = '/' ∧ mode = .regex := by simpa using hslash
    cases hread : regex ('/' :: rest) with
    | error e => rw [hread] at h; cases h
    | ok l' =>
      rw [hread] at h
      cases h
      exact regex_ok hread
  exact punctuator_ok h

/-- A token and what is left make up the text, and the token has a text of its kind. Only nothing
is left of a text without characters. -/
theorem token_ok {mode : SlashMode} {text : List Char} {kind : Kind} {l : Lexeme}
    (h : token mode text = .ok (kind, l)) :
    l.Splits text ∧ Spells kind l.text ∧ (kind = .endOfInput → l.rest = []) := by
  cases text with
  | nil => cases h; exact ⟨rfl, rfl, fun _ => rfl⟩
  | cons c rest =>
    obtain ⟨hsplits, hspells, hnotEnd⟩ := token_cons_ok h
    exact ⟨hsplits, hspells, fun hend => absurd hend hnotEnd⟩

end ScriptMin.Lexer
