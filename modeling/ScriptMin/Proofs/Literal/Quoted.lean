import Mathlib.Data.List.Count
import ScriptMin.Literal.Escape
import ScriptMin.Literal.Quoted
import ScriptMin.Proofs.Token.Trivia

/-!
# A written string is read back

`escapeChar` writes each character as itself or as an escape, and `Piece` says what both have to be
so that they are read back: a character that stands for itself neither ends the literal nor starts
an escape, and an escape decodes to the character whatever comes after it. The body of a literal is
such pieces in a row (`Written`). The lexer, the decoder and the count of escaped quotes each go
through a body piece by piece, and `quoted_read_back` puts their results together.
-/

namespace ScriptMin.Literal

open Source Lexer

/-! ## Pieces -/

/-- The two characters that a literal can stand between. -/
def IsQuote (c : Char) : Prop := c = '\x27' ∨ c = '\x22'
deriving Decidable

/-- A character that can stand in a literal as itself. -/
def IsBare (quote c : Char) : Prop := c ≠ '\\' ∧ c ≠ quote ∧ c ≠ '\n' ∧ c ≠ '\r'

/-- A null in its short form cannot be read back before a digit. -/
def Separates (piece text : List Char) : Prop :=
  piece = ['\\', '0'] → ¬ text.head?.any Char.isDigit

/-- What a character may be written as between quotes. -/
inductive Piece (quote c : Char) : List Char → Prop where
  | bare (h : IsBare quote c) : Piece quote c [c]
  | escape (mark : Char) (tail : List Char) (hmark : mark ≠ '\r')
      (htail : ∀ d ∈ tail, d.isAlphanum)
      (hquote : mark = quote ∧ c = quote ∨ ¬ IsQuote mark ∧ c ≠ quote)
      (hdecode : ∀ text, Separates ('\\' :: mark :: tail) text →
        escape? (mark :: tail ++ text) = some (some c.toNat, text)) :
      Piece quote c ('\\' :: mark :: tail)

/-- The characters of a value, each written as a piece. -/
inductive Written (quote : Char) : List Char → List Char → Prop where
  | nil : Written quote [] []
  | cons {c : Char} {piece value body : List Char} (hpiece : Piece quote c piece)
      (hseparates : Separates piece body) (h : Written quote value body) :
      Written quote (c :: value) (piece ++ body)

theorem isBare_of_isAlphanum {quote c : Char} (hquote : IsQuote quote) (h : c.isAlphanum) :
    IsBare quote c := by
  refine ⟨?_, ?_, ?_, ?_⟩
  · rintro rfl; revert h; decide
  · rintro rfl; rcases hquote with rfl | rfl <;> revert h <;> decide
  · rintro rfl; revert h; decide
  · rintro rfl; revert h; decide

theorem isQuote_quoteFor (value : List Char) : IsQuote (quoteFor value) := by
  unfold quoteFor
  split
  · exact .inl rfl
  · exact .inr rfl

/-! ## Escapes decode -/

/-- As many hexadecimal digits as are asked for, in front of any text. -/
theorem fixedHex?_append {digits : List Char} {n : Nat} (h : hexValue? digits = some n)
    (text : List Char) : fixedHex? digits.length (digits ++ text) = some (n, text) := by
  have hlength : ¬ (digits ++ text).length < digits.length := by
    rw [List.length_append]
    omega
  rw [fixedHex?, if_neg hlength, List.take_left, List.drop_left, h]
  rfl

theorem hexValue?_twoHexDigits {n : Nat} (hn : n < 32) : hexValue? (twoHexDigits n) = some n := by
  have hall : ∀ n < 32, hexValue? (twoHexDigits n) = some n := by decide
  exact hall n hn

theorem isAlphanum_twoHexDigits {n : Nat} (hn : n < 32) :
    ∀ d ∈ twoHexDigits n, d.isAlphanum := by
  have hall : ∀ n < 32, (twoHexDigits n).all Char.isAlphanum := by decide
  exact fun d hd => List.all_eq_true.1 (hall n hn) d hd

theorem decimal_of_digitValue? {c : Char} {d : Nat} (h : digitValue? 8 c = some d) :
    c.isDigit := by
  unfold digitValue? at h
  by_contra hc
  simp only [hc, if_false] at h
  grind

/-- The short form of a null is read as no longer octal number. -/
theorem escape?_zero {text : List Char} (h : ¬ text.head?.any Char.isDigit) :
    escape? ('0' :: text) = some (some 0, text) := by
  have htail : octalTail 0 2 text = (0, text) := by
    cases text with
    | nil => rfl
    | cons c text =>
      have hc : digitValue? 8 c = none := by
        by_contra hsome
        obtain ⟨d, hd⟩ := Option.ne_none_iff_exists'.1 hsome
        exact h (by simpa using decimal_of_digitValue? hd)
      simp [octalTail, hc]
  have hline : isLineTerminator '0' = false := by decide
  have hdigit : digitValue? 8 '0' = some 0 := by decide
  simp [escape?, hline, hdigit, htail]

/-! ## Characters become pieces -/

section Pieces

variable {quote c : Char} (hquote : IsQuote quote)

include hquote in
/-- An escape of one character. -/
theorem Piece.ofMark {mark : Char} (hcr : mark ≠ '\r') (hmark : ¬ IsQuote mark) (hc : ¬ IsQuote c)
    (h : ∀ text, escape? (mark :: text) = some (some c.toNat, text)) :
    Piece quote c ['\\', mark] :=
  .escape mark [] hcr nofun (.inr ⟨hmark, fun heq => hc (heq ▸ hquote)⟩) fun text _ => h text

include hquote in
/-- A control character by its number. -/
theorem Piece.ofTwoHexDigits (hc : c.toNat < 32) :
    Piece quote c ('\\' :: 'x' :: twoHexDigits c.toNat) := by
  refine .escape 'x' _ (by decide) (isAlphanum_twoHexDigits hc) (.inr ⟨by decide, ?_⟩) ?_
  · rintro rfl
    rcases hquote with rfl | rfl <;> exact absurd hc (by decide)
  · intro text _
    have hread := fixedHex?_append (hexValue?_twoHexDigits hc) text
    rw [List.cons_append, escape?]
    exact congrArg (Option.map _) hread

include hquote in
/-- A character by its four digits. -/
theorem Piece.ofFourHexDigits {digits : List Char} (hlength : digits.length = 4)
    (halphanum : ∀ d ∈ digits, d.isAlphanum) (hvalue : hexValue? digits = some c.toNat)
    (hc : ¬ IsQuote c) : Piece quote c ('\\' :: 'u' :: digits) := by
  refine .escape 'u' _ (by decide) halphanum (.inr ⟨by decide, fun heq => hc (heq ▸ hquote)⟩) ?_
  intro text _
  have hread := fixedHex?_append hvalue text
  rw [hlength] at hread
  rw [List.cons_append, escape?]
  · exact congrArg (Option.map _) hread
  · -- no digit is the brace that a code point of any length starts with
    intro rest heq
    obtain ⟨d, tail, rfl⟩ := List.exists_cons_of_length_eq_add_one hlength
    obtain ⟨rfl, -⟩ : d = '\x7b' ∧ _ := by simpa using heq
    exact absurd (halphanum _ List.mem_cons_self) (by decide)

end Pieces

/-- Each character is written as a piece. -/
theorem piece_escapeChar {quote : Char} (hquote : IsQuote quote) (before after : Option Char)
    (c : Char) : Piece quote c (escapeChar quote before after c) := by
  unfold escapeChar
  split
  case h_1 => exact .ofMark hquote (by decide) (by decide) (by decide) fun _ => rfl
  case h_2 => exact .ofMark hquote (by decide) (by decide) (by decide) fun _ => rfl
  case h_3 => exact .ofMark hquote (by decide) (by decide) (by decide) fun _ => rfl
  case h_4 => exact .ofMark hquote (by decide) (by decide) (by decide) fun _ => rfl
  case h_5 => exact .ofMark hquote (by decide) (by decide) (by decide) fun _ => rfl
  case h_6 => exact .ofMark hquote (by decide) (by decide) (by decide) fun _ => rfl
  case h_7 => exact .ofFourHexDigits hquote rfl (List.all_eq_true.1 rfl) (by decide) (by decide)
  case h_8 => exact .ofFourHexDigits hquote rfl (List.all_eq_true.1 rfl) (by decide) (by decide)
  case h_9 => exact .ofFourHexDigits hquote rfl (List.all_eq_true.1 rfl) (by decide) (by decide)
  case h_10 =>
    split
    · exact .ofTwoHexDigits hquote (by decide)
    · refine .escape '0' [] (by decide) nofun (.inr ⟨by decide, ?_⟩) fun text h =>
        escape?_zero (h rfl)
      rintro rfl
      exact absurd hquote (by decide)
  case h_11 hbackslash hnewline hreturn _ _ _ _ _ _ _ =>
    split
    case isTrue h =>
      obtain ⟨rfl, -⟩ : c = '/' ∧ before = some '<' := by simpa using h
      exact .ofMark hquote (by decide) (by decide) (by decide) fun _ => rfl
    split
    case isTrue _ h =>
      obtain rfl : c = quote := by simpa using h
      refine .escape c [] hreturn nofun (.inl ⟨rfl, rfl⟩) fun text _ => ?_
      rcases hquote with rfl | rfl <;> rfl
    split
    case isTrue _ _ h =>
      have hc : c < ' ' := (by simpa using h : c < ' ' ∧ _).1
      exact .ofTwoHexDigits hquote hc
    case isFalse hne _ => exact .bare ⟨hbackslash, by simpa using hne, hnewline, hreturn⟩

theorem Piece.head? {quote c : Char} {piece : List Char} (h : Piece quote c piece) :
    piece.head? = some c ∨ piece.head? = some '\\' := by
  cases h with
  | bare => exact .inl rfl
  | escape => exact .inr rfl

/-- A null has its short form only where the value goes on with no digit. -/
theorem not_isDigit_of_escapeChar {quote c : Char} (hquote : IsQuote quote)
    {before after : Option Char} (h : escapeChar quote before after c = ['\\', '0']) :
    ¬ after.any Char.isDigit := by
  unfold escapeChar at h
  split at h
  case h_10 =>
    split at h
    · cases h
    · assumption
  case h_11 =>
    split at h
    · cases h
    split at h
    case isTrue hc =>
      obtain rfl : c = quote := by simpa using hc
      obtain rfl : c = '0' := by simpa using h
      exact absurd hquote (by decide)
    split at h <;> cases h
  all_goals cases h

/-- Between the short form of a null and the next piece there is no digit. -/
theorem separates_escapeChar {quote : Char} (hquote : IsQuote quote) {before : Option Char}
    {c : Char} {value : List Char} :
    Separates (escapeChar quote before value.head? c) (quotedFrom quote (some c) value) := by
  intro hshort
  have hafter := not_isDigit_of_escapeChar hquote hshort
  cases value with
  | nil => simp [quotedFrom]
  | cons d value =>
    have hpiece := piece_escapeChar hquote (some c) value.head? d
    have hd : ¬ d.isDigit := by simpa using hafter
    rw [quotedFrom, List.head?_append]
    rcases hpiece.head? with h | h
    · rw [h]; simpa using hd
    · rw [h]; exact Bool.false_ne_true

/-- The body of a literal is written piece by piece. -/
theorem written_quotedFrom {quote : Char} (hquote : IsQuote quote) (before : Option Char)
    (value : List Char) : Written quote value (quotedFrom quote before value) := by
  induction value generalizing before with
  | nil => exact .nil
  | cons c value ih =>
    exact .cons (piece_escapeChar hquote before value.head? c) (separates_escapeChar hquote)
      (ih (some c))

/-! ## What is read of the pieces -/

/-- The number of quotes in a literal that an escape stands for. -/
def escapedQuotes : List Char → Nat
  | '\\' :: mark :: text => (if IsQuote mark then 1 else 0) + escapedQuotes text
  | _ :: text => escapedQuotes text
  | [] => 0

section Bare

variable {quote : Char} {tail : List Char}

theorem map_after_nil (read : Except Refusal Lexeme) : read.map (·.after []) = read := by
  cases read <;> rfl

theorem map_after_after (read : Except Refusal Lexeme) (before tail : List Char) :
    (read.map (·.after tail)).map (·.after before) = read.map (·.after (before ++ tail)) := by
  cases read with
  | error e => rfl
  | ok l => simp [Except.map, Lexeme.after]

/-- Characters that stand for themselves are stepped over. -/
theorem stringBody_bare (htail : ∀ c ∈ tail, IsBare quote c) (text : List Char)
    (segment offset : Nat) :
    ∃ offset', stringBody quote segment offset false (tail ++ text) =
      (stringBody quote segment offset' false text).map (·.after tail) := by
  induction tail generalizing offset with
  | nil => exact ⟨offset, (map_after_nil _).symm⟩
  | cons c tail ih =>
    obtain ⟨hc, htail⟩ := List.forall_mem_cons.1 htail
    obtain ⟨hbackslash, hquote, hnewline, hreturn⟩ := hc
    obtain ⟨offset', hread⟩ := ih htail (offset + c.utf8Size)
    have hcr : (c == '\r') = false := by simpa using hreturn
    have hnl : (c == '\n') = false := by simpa using hnewline
    have hq : (c == quote) = false := by simpa using hquote
    refine ⟨offset', ?_⟩
    rw [List.cons_append, stringBody]
    · simp only [hq, hnl, hcr, Bool.or_false, Bool.false_eq_true, if_false, hread]
      exact map_after_after _ [c] tail
    · rintro rfl; exact hbackslash rfl

theorem escapedQuotes_bare (htail : ∀ c ∈ tail, IsBare quote c) (text : List Char) :
    escapedQuotes (tail ++ text) = escapedQuotes text := by
  induction tail with
  | nil => rfl
  | cons c tail ih =>
    obtain ⟨hc, htail⟩ := List.forall_mem_cons.1 htail
    rw [List.cons_append, escapedQuotes, ih htail]
    rintro mark rest rfl
    exact absurd rfl hc.1

end Bare

/-- The lexer steps over a piece. -/
theorem Piece.stringBody {quote c : Char} {piece : List Char} (h : Piece quote c piece)
    (hquote : IsQuote quote) (text : List Char) (segment offset : Nat) :
    ∃ segment' offset', stringBody quote segment offset false (piece ++ text) =
      (stringBody quote segment' offset' false text).map (·.after piece) := by
  cases h with
  | bare hc =>
    obtain ⟨offset', hread⟩ := stringBody_bare (List.forall_mem_singleton.2 hc) text segment offset
    exact ⟨segment, offset', hread⟩
  | escape mark tail hmark htail =>
    have hbare : ∀ d ∈ tail, IsBare quote d := fun d hd => isBare_of_isAlphanum hquote (htail d hd)
    obtain ⟨offset', hread⟩ := stringBody_bare hbare text (offset + 1 + mark.utf8Size)
      (offset + 1 + mark.utf8Size)
    refine ⟨offset + 1 + mark.utf8Size, offset', ?_⟩
    rw [List.cons_append, List.cons_append, Lexer.stringBody]
    · simp only [Bool.false_eq_true, if_false, hread]
      exact map_after_after _ ['\\', mark] tail
    · rintro rest rfl; exact absurd rfl hmark

/-- The number of escaped quotes in a piece. -/
theorem Piece.escapedQuotes {quote c : Char} {piece : List Char} (h : Piece quote c piece)
    (hquote : IsQuote quote) (text : List Char) :
    escapedQuotes (piece ++ text) = [c].count quote + escapedQuotes text := by
  cases h with
  | bare hc =>
    rw [escapedQuotes_bare (List.forall_mem_singleton.2 hc), List.count_singleton,
      if_neg (by simpa using hc.2.1), Nat.zero_add]
  | escape mark tail _ htail hmark =>
    have hbare : ∀ d ∈ tail, IsBare quote d := fun d hd => isBare_of_isAlphanum hquote (htail d hd)
    rw [List.cons_append, List.cons_append, Literal.escapedQuotes, escapedQuotes_bare hbare]
    rcases hmark with ⟨rfl, rfl⟩ | ⟨hmark, hc⟩
    · simp [hquote]
    · simp [hmark, hc]

namespace Written

variable {quote : Char} {value body : List Char}

/-- The lexer goes to the quote behind a body and no further. -/
theorem stringBody (h : Written quote value body) (hquote : IsQuote quote) (text : List Char)
    (segment offset : Nat) : stringBody quote segment offset false (body ++ quote :: text) =
      .ok ⟨body ++ [quote], text⟩ := by
  induction h generalizing segment offset with
  | nil =>
    rw [List.nil_append, Lexer.stringBody, if_pos (beq_self_eq_true quote)]
    · rfl
    · rintro rfl; exact absurd hquote (by decide)
  | @cons c piece value body hpiece _ _ ih =>
    obtain ⟨segment', offset', hread⟩ :=
      hpiece.stringBody hquote (body ++ quote :: text) segment offset
    rw [List.append_assoc, hread, ih]
    simp [Except.map, Lexeme.after]

/-- Each piece decodes to its character. -/
theorem codesFrom? (h : Written quote value body) (surplus : Nat) :
    codesFrom? (body.length + surplus) body = some (value.map Char.toNat) := by
  induction h generalizing surplus with
  | nil => cases surplus <;> rfl
  | @cons c piece value body hpiece hseparates _ ih =>
    cases hpiece with
    | bare hc =>
      have hbound : ([c] ++ body).length + surplus = (body.length + surplus) + 1 := by
        simp only [List.length_append, List.length_singleton]
        omega
      rw [hbound, List.singleton_append, Literal.codesFrom?, ih]
      · rfl
      · rintro rfl; exact absurd rfl hc.1
    | escape mark tail _ _ _ hdecode =>
      have hbound : ('\\' :: mark :: tail ++ body).length + surplus =
          (body.length + (tail.length + surplus + 1)) + 1 := by
        simp only [List.length_append, List.length_cons]
        omega
      rw [hbound, List.cons_append, Literal.codesFrom?, hdecode body hseparates]
      exact congrArg (Option.map _) (ih _)

/-- Only the quotes around a literal are escaped inside it. -/
theorem escapedQuotes (h : Written quote value body) (hquote : IsQuote quote) (text : List Char) :
    escapedQuotes (body ++ text) = value.count quote + escapedQuotes text := by
  induction h with
  | nil => simp
  | @cons c piece value body hpiece _ _ ih =>
    rw [List.append_assoc, hpiece.escapedQuotes hquote, ih, ← Nat.add_assoc, ← List.count_append,
      List.singleton_append]

end Written

/-! ## A literal -/

theorem isSurrogate_toNat (c : Char) : isSurrogate c.toNat = false := by
  have hc := c.valid
  simp only [UInt32.isValidChar, Nat.isValidChar] at hc
  simp only [isSurrogate, isHighSurrogate, isLowSurrogate, Char.toNat]
  grind

/-- A code that is no surrogate is a character by itself. -/
theorem assemble_cons {code : Nat} (h : isSurrogate code = false) (codes : List Nat) :
    assemble (code :: codes) = (Char.ofNat code :: (assemble codes).1, (assemble codes).2) := by
  have hhigh : isHighSurrogate code = false := (Bool.or_eq_false_iff.1 h).1
  cases codes with
  | nil => simp [assemble, h]
  | cons next codes => simp [assemble, h, hhigh]

/-- Characters are no surrogates, so they are put together as they were. -/
theorem assemble_toNat (value : List Char) : assemble (value.map Char.toNat) = (value, true) := by
  induction value with
  | nil => rfl
  | cons c value ih =>
    rw [List.map_cons, assemble_cons (isSurrogate_toNat c), ih, Char.ofNat_toNat]

theorem string_quoted (value text : List Char) :
    string (quoted value ++ text) = .ok ⟨quoted value, text⟩ := by
  have hquote := isQuote_quoteFor value
  have hbody := (written_quotedFrom hquote none value).stringBody hquote text 1 1
  have htext : quoted value ++ text =
      quoteFor value :: (quotedFrom (quoteFor value) none value ++ quoteFor value :: text) := by
    simp [quoted]
  rw [htext, string, hbody]
  rfl

theorem stringValue?_quoted (value : List Char) :
    stringValue? (quoted value) = some (value, true) := by
  have hbody := written_quotedFrom (isQuote_quoteFor value) none value
  have hunquoted : unquoted (quoted value) = quotedFrom (quoteFor value) none value := by
    simp [unquoted, quoted]
  have hcodes := hbody.codesFrom? 0
  rw [Nat.add_zero] at hcodes
  rw [stringValue?, hunquoted, codes?, hcodes, Option.map_some, assemble_toNat]

theorem escapedQuotes_quoted (value : List Char) :
    escapedQuotes (quoted value) = value.count (quoteFor value) := by
  have hquote := isQuote_quoteFor value
  have hbare : ∀ c, IsQuote c → c ≠ '\\' := by rintro c (rfl | rfl) <;> decide
  have hopen : ∀ text, escapedQuotes (quoteFor value :: text) = escapedQuotes text := by
    intro text
    rw [escapedQuotes]
    rintro mark rest h
    exact absurd h (hbare _ hquote)
  rw [quoted, hopen, (written_quotedFrom hquote none value).escapedQuotes hquote, hopen,
    escapedQuotes, Nat.add_zero]

theorem count_quoteFor (value : List Char) :
    value.count (quoteFor value) = min (value.count '\x27') (value.count '\x22') := by
  unfold quoteFor
  split <;> omega

theorem token_quoted (mode : SlashMode) (value text : List Char) :
    token mode (quoted value ++ text) = .ok (.string, ⟨quoted value, text⟩) := by
  have hread := string_quoted value text
  rcases isQuote_quoteFor value with hquote | hquote
  · rw [quoted, hquote, List.cons_append] at hread ⊢
    rw [token, hread]
    rfl
  · rw [quoted, hquote, List.cons_append] at hread ⊢
    rw [token, hread]
    rfl

/-- A string that was written is read back. Whatever follows it, the lexer takes exactly the
literal, and the literal is representable and has the value that was written. Its escaped quotes
are as many as there are of the quote that occurs less often. -/
theorem quoted_read_back (value text : List Char) (mode : SlashMode) (position : Nat) :
    Cursor.next mode ⟨quoted value ++ text, position⟩ =
      .ok (⟨.string, String.ofList (quoted value),
          ⟨position, position + byteLength (quoted value)⟩, false⟩,
        ⟨text, position + byteLength (quoted value)⟩) ∧
    stringValue? (quoted value) = some (value, true) ∧
    escapedQuotes (quoted value) = min (value.count '\x27') (value.count '\x22') := by
  refine ⟨?_, stringValue?_quoted value, (escapedQuotes_quoted value).trans (count_quoteFor value)⟩
  have hstart : startsTrivia (quoted value ++ text) = false ∧
      (quoted value ++ text).head? ≠ some '#' := by
    rcases isQuote_quoteFor value with hquote | hquote <;> rw [quoted, hquote] <;>
      exact ⟨rfl, by simp⟩
  exact Cursor.next_of_token hstart.1 hstart.2 (token_quoted mode value text) position

end ScriptMin.Literal
