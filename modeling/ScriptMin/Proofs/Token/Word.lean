import Mathlib.Data.Bool.AllAny
import ScriptMin.Proofs.Token.Tiling

/-!
# Words, parentheses and arrows

A text that is read as one name is read so wherever it stands, as long as nothing after it goes on
the word. Blanks before a token only move it, and a parenthesis or an arrow is read alike in both
slash modes.
-/

namespace ScriptMin

open Source Lexer

/-- The token at a place, which is the same in both slash modes, and the place after it. -/
def Cursor.Starts (c : Cursor) (t : Token) (c' : Cursor) : Prop :=
  ∀ mode, c.next mode = .ok (t, c')

/-- A text that is one token, which can name a variable. -/
def IsBindingToken (name : List Char) : Prop :=
  ∃ t c, Cursor.next .division ⟨name, 1⟩ = .ok (t, c) ∧ t.text.toList = name ∧ t.kind.isBindingName

/-- The next token of a text is an arrow, with no end of a line before it. -/
def StartsWithArrow (text : List Char) : Prop :=
  ∃ t c, Cursor.next .division ⟨text, 1⟩ = .ok (t, c) ∧ t.kind = .punctuator .arrow ∧
    t.afterNewline = false

/-- A token of a class that a punctuator does not belong to is not that punctuator. -/
theorem Kind.ne_punctuator {accepts : Kind → Bool} {k : Kind} (h : accepts k) {p : Punctuator}
    (hp : accepts (.punctuator p) = false := by rfl) : k ≠ .punctuator p := by
  rintro rfl
  rw [h] at hp
  cases hp

/-! ## What goes on a word -/

theorem continuesWord_of_isSpace {c : Char} (h : isSpace c) : continuesWord c = false := by
  have hblanks : ∀ d ∈ ['\t', '\x0b', '\x0c', ' ', '\u00a0', '\ufeff', '\n', '\r', '\u2028',
      '\u2029'], continuesWord d = false := List.all_iff_forall_prop.1 rfl
  refine hblanks c ?_
  simpa [isSpace, isBlank, isLineTerminator, or_assoc] using h

theorem Lexer.IsTrivia.head_not_continuesWord {after gap : List Char} (h : IsTrivia after gap)
    (hafter : ¬ after.head?.any continuesWord) : ¬ (gap ++ after).head?.any continuesWord := by
  cases h with
  | nil => exact hafter
  | space hc => simp [continuesWord_of_isSpace hc]
  | blockComment | lineComment => simp; decide

/-- Nothing goes on a word that blanks stand behind. -/
theorem not_continuesWord_of_blanks {gap text : List Char} (hgap : ∀ c ∈ gap, isBlank c)
    (htext : gap = [] → ¬ text.head?.any continuesWord) :
    ¬ (gap ++ text).head?.any continuesWord := by
  cases gap with
  | nil => exact htext rfl
  | cons c gap =>
    have hspace : isSpace c := by simp [isSpace, hgap c List.mem_cons_self]
    simp [continuesWord_of_isSpace hspace]

/-! ## Names -/

/-- The name as a token, at a position. -/
def nameToken (name : List Char) (position : Nat) : Token :=
  ⟨wordKind name, String.ofList name, ⟨position, position + byteLength name⟩, false⟩

section

variable {name rest : List Char}

theorem Lexer.token_word (hname : IsWord name) (hrest : ¬ rest.head?.any continuesWord)
    (mode : SlashMode) : token mode (name ++ rest) = .ok (wordKind name, ⟨name, rest⟩) := by
  obtain ⟨c, ds, rfl, hstart, hds⟩ := hname
  obtain ⟨htake, hdrop⟩ := takeWhile_of_not_continuesWord hrest
  have hword := word_append hds rest (d := c)
  rw [htake, hdrop, List.append_nil] at hword
  have hstart : (!isAscii c || isIdentifierStart c) = true := by simpa [or_comm] using hstart
  simp only [List.cons_append, token, hstart, if_true, classifiedWord_eq]
  rw [← List.cons_append, hword]
  rfl

theorem Word.eq_spelling {text : String} {w : Word} (h : ofString? text = some w) :
    text = w.spelling := by
  have hall : ∀ p ∈ table, p.1 = p.2.spelling := by decide
  exact hall _ (ofString?_eq_some_iff.1 h)

/-- A word of the table has one spelling. -/
theorem Lexer.eq_of_wordKind {w : Word} (h : wordKind name = .word w) :
    name = w.spelling.toList := by
  unfold wordKind at h
  split at h
  case h_1 w' hw =>
    cases h
    rw [← Word.eq_spelling hw, String.toList_ofList]
  case h_2 => cases h

/-- A text that starts with a word of the table, and with no longer word, goes on behind it. -/
theorem Lexer.eq_of_token_word {mode : SlashMode} {w : Word} {text : List Char} {l : Lexeme}
    (h : token mode (w.spelling.toList ++ text) = .ok (.word w, l)) :
    l = ⟨w.spelling.toList, text⟩ := by
  obtain ⟨hsplits, hspells, -⟩ := token_ok h
  have htext : l.text = w.spelling.toList := eq_of_wordKind (by simp [wordKind, hspells.2])
  obtain ⟨word, rest⟩ := l
  obtain rfl : word = w.spelling.toList := htext
  obtain rfl : rest = text := List.append_cancel_left hsplits
  rfl

/-- A token that can name a variable is a word, and its text alone tells its kind. -/
theorem Lexer.Spells.word {kind : Kind} {text : List Char} (h : Spells kind text)
    (hkind : kind.isBindingName) : IsWord text ∧ wordKind text = kind := by
  cases kind with
  | word w => exact ⟨h.1, by simp [wordKind, h.2]⟩
  | identifier => exact ⟨h.1, by simp [wordKind, h.2]⟩
  | _ => cases hkind

namespace IsBindingToken

/-- The name is a word of a kind that names variables, and nothing is skipped before it. -/
theorem word (h : IsBindingToken name) :
    IsWord name ∧ (wordKind name).isBindingName ∧ startsTrivia name = false := by
  obtain ⟨t, c, hnext, rfl, hkind⟩ := h
  obtain ⟨gap, -, hstands, -⟩ := Cursor.next_ok (show 1 = byteLength ['a'] from rfl) hnext
  obtain ⟨hword, hwordKind⟩ := hstands.spells.word hkind
  exact ⟨hword, hwordKind ▸ hkind, hstands.startsTrivia_text⟩

/-- The name starts a token, which is the whole name if nothing goes on it. -/
theorem token (h : IsBindingToken name) (hrest : ¬ rest.head?.any continuesWord)
    (mode : SlashMode) : startsTrivia (name ++ rest) = false ∧
      (name ++ rest).head? ≠ some '#' ∧
      Lexer.token mode (name ++ rest) = .ok (wordKind name, ⟨name, rest⟩) := by
  obtain ⟨hword, -, htrivia⟩ := h.word
  refine ⟨?_, ?_, token_word hword hrest mode⟩
  all_goals obtain ⟨c, ds, rfl, hstart, -⟩ := hword
  · -- the first character is neither space nor the slash of a comment
    have hslash : c ≠ '/' := by
      rintro rfl
      exact absurd hstart (by decide)
    unfold startsTrivia at htrivia ⊢
    simp_all
  · rintro ⟨⟩
    exact absurd hstart (by decide)

theorem byteLength_pos (h : IsBindingToken name) : 0 < byteLength name := by
  obtain ⟨⟨c, ds, rfl, -⟩, -⟩ := h.word
  exact Source.byteLength_pos (List.cons_ne_nil c ds)

/-- The name is the next token at its own place. -/
theorem starts (h : IsBindingToken name) (hrest : ¬ rest.head?.any continuesWord)
    (position : Nat) :
    Cursor.Starts ⟨name ++ rest, position⟩ (nameToken name position)
      ⟨rest, position + byteLength name⟩ := by
  intro mode
  obtain ⟨htrivia, hhash, htoken⟩ := h.token hrest mode
  exact Cursor.next_of_token htrivia hhash htoken position

end IsBindingToken

end

/-! ## Words in a source -/

/-- The token `t` is the whole word that starts `text`: its text is the longest run of name
characters there, which ends where the cursor `c` stands, and its kind is that of the entry of the
table spelled like it. -/
structure IsWholeWord (text : List Char) (t : Token) (c : Cursor) : Prop where
  splits : t.text.toList ++ c.rest = text
  notEmpty : t.text.toList ≠ []
  continues : ∀ d ∈ t.text.toList, continuesWord d
  ends : ¬ c.rest.head?.any continuesWord
  span : t.span.stop = t.span.start + byteLength t.text.toList
  word : ∀ w, t.kind = .word w ↔ (t.text, w) ∈ Word.table
  identifier : t.kind = .identifier ↔ ∀ w, (t.text, w) ∉ Word.table

/-- A character that starts a word goes on one as well, unless it is space. -/
theorem continuesWord_of_starts {c : Char} (h : isIdentifierStart c ∨ isAscii c = false)
    (hspace : isSpace c = false) : continuesWord c := by
  unfold continuesWord
  rcases h with hstart | hforeign
  · split
    · simp [isIdentifierPart, hstart]
    · simp [hspace]
  · simp [hforeign, hspace]

/-- Where the character after the trivia starts a word, the next token is the whole word there, and
nothing but the word is consumed. -/
theorem Cursor.next_word (mode : SlashMode) (c : Cursor) {trivia : Trivia} {first : Char}
    {text : List Char} (htrivia : triviaAt c.position c.rest = .ok trivia)
    (htext : trivia.rest = first :: text)
    (hfirst : isIdentifierStart first ∨ isAscii first = false) :
    ∃ t c', c.next mode = .ok (t, c') ∧ IsWholeWord trivia.rest t c' ∧
      t.span = ⟨c.position + trivia.offset, c'.position⟩ ∧ t.afterNewline = trivia.newline := by
  obtain ⟨-, -, -, hstops⟩ := triviaAt_ok htrivia
  have hspace : isSpace first = false := by
    by_contra hspace
    rw [htext, startsTrivia_of_isSpace (by simpa using hspace)] at hstops
    cases hstops
  let run := first :: text.takeWhile continuesWord
  have htoken : token mode trivia.rest =
      .ok (wordKind run, ⟨run, text.dropWhile continuesWord⟩) := by
    have hstart : (!isAscii first || isIdentifierStart first) = true := by
      simpa [or_comm] using hfirst
    rw [htext]
    simp only [token, hstart, if_true, classifiedWord_eq]
    rfl
  refine ⟨_, _, next_eq_ok.2 ⟨trivia, _, _, htrivia, htoken, rfl, rfl⟩, ?_, rfl, rfl⟩
  constructor
  case splits => simp [run, htext]
  case notEmpty => simp [run]
  case continues =>
    rw [String.toList_ofList]
    refine List.forall_mem_cons.2 ⟨continuesWord_of_starts hfirst hspace, fun d hd => ?_⟩
    exact List.mem_takeWhile_imp hd
  case ends =>
    have hhead := List.head?_dropWhile_not continuesWord text
    intro hany
    rcases hdrop : text.dropWhile continuesWord with _ | ⟨d, rest⟩
    · simp [hdrop] at hany
    · simp_all
  case span => rw [String.toList_ofList]
  case word => exact fun w => wordKind_eq_word_iff
  case identifier => exact wordKind_eq_identifier_iff

/-- A no-break space ends the word `instanceofé`, which is no entry of the table. -/
theorem Cursor.next_word_foreign :
    triviaAt 7 "/*x*/instanceofé\u00a0b".toList = .ok ⟨"instanceofé\u00a0b".toList, 5, false⟩ ∧
    ∃ t c', Cursor.next .regex ⟨"/*x*/instanceofé\u00a0b".toList, 7⟩ = .ok (t, c') ∧
      IsWholeWord "instanceofé\u00a0b".toList t c' ∧ t.span = ⟨7 + 5, c'.position⟩ ∧
      t.afterNewline = false :=
  have htrivia : triviaAt 7 "/*x*/instanceofé\u00a0b".toList =
      .ok ⟨"instanceofé\u00a0b".toList, 5, false⟩ := by decide +kernel
  have htext : "instanceofé\u00a0b".toList = 'i' :: "nstanceofé\u00a0b".toList := by decide +kernel
  ⟨htrivia, next_word .regex ⟨_, 7⟩ htrivia htext (.inl rfl)⟩

/-! ## Blanks -/

theorem Lexer.skipTrivia_blanks {gap text : List Char} (hgap : ∀ c ∈ gap, isBlank c)
    (htext : startsTrivia text = false) (offset : Nat) :
    skipTrivia .between offset false (gap ++ text) =
      .ok ⟨text, offset + byteLength gap, false⟩ := by
  induction gap generalizing offset with
  | nil => exact skipTrivia_between htext offset false
  | cons c gap ih =>
    obtain ⟨hc, hgap⟩ := List.forall_mem_cons.1 hgap
    have hline : isLineTerminator c = false := by
      have hblanks : ∀ d ∈ ['\t', '\x0b', '\x0c', ' ', '\u00a0', '\ufeff'],
          isLineTerminator d = false := List.all_iff_forall_prop.1 rfl
      exact hblanks c (by simpa [isBlank, or_assoc] using hc)
    have hspace : isSpace c := by simp [isSpace, hc]
    have hih := ih hgap (offset + c.utf8Size)
    rw [byteLength, ← Nat.add_assoc, ← hih, List.cons_append]
    cases gap ++ text with
    | nil => simp [skipTrivia, hspace, hline]
    | cons d rest => simp [skipTrivia, hspace, hline]

/-- Blanks move the token that stands behind them. -/
theorem Cursor.starts_of_blanks {gap text word rest : List Char} {kind : Kind} {position : Nat}
    (hgap : ∀ c ∈ gap, isBlank c) (htext : startsTrivia text = false)
    (htoken : ∀ mode, token mode text = .ok (kind, ⟨word, rest⟩)) (hposition : 0 < position) :
    Cursor.Starts ⟨gap ++ text, position⟩
      ⟨kind, String.ofList word, ⟨position + byteLength gap,
        position + byteLength gap + byteLength word⟩, false⟩
      ⟨rest, position + byteLength gap + byteLength word⟩ := by
  obtain ⟨n, rfl⟩ := Nat.exists_eq_add_one.2 hposition
  have htrivia : triviaAt (n + 1) (gap ++ text) = .ok ⟨text, byteLength gap, false⟩ := by
    have h := skipTrivia_blanks hgap htext 0
    rwa [Nat.zero_add] at h
  intro mode
  simp only [Cursor.next, htrivia, htoken]

/-! ## Parentheses and arrows -/

theorem Lexer.token_openParenthesis (mode : SlashMode) (text : List Char) :
    token mode ('(' :: text) = .ok (.punctuator .openParenthesis, ⟨['('], text⟩) := by
  cases mode <;> rfl

theorem Lexer.token_closeParenthesis (mode : SlashMode) (text : List Char) :
    token mode (')' :: text) = .ok (.punctuator .closeParenthesis, ⟨[')'], text⟩) := by
  cases mode <;> rfl

theorem Lexer.token_equals (mode : SlashMode) (text : List Char) :
    token mode ('=' :: text) = token .division ('=' :: text) := by
  cases mode <;> rfl

theorem Cursor.starts_openParenthesis (text : List Char) (position : Nat) :
    Cursor.Starts ⟨'(' :: text, position⟩
      ⟨.punctuator .openParenthesis, "(", ⟨position, position + 1⟩, false⟩
      ⟨text, position + 1⟩ :=
  fun mode => next_of_token rfl (by simp) (token_openParenthesis mode text) position

theorem Cursor.starts_closeParenthesis (text : List Char) (position : Nat) :
    Cursor.Starts ⟨')' :: text, position⟩
      ⟨.punctuator .closeParenthesis, ")", ⟨position, position + 1⟩, false⟩
      ⟨text, position + 1⟩ :=
  fun mode => next_of_token rfl (by simp) (token_closeParenthesis mode text) position

/-- The arrow is the next token wherever the text stands behind the start of a source. -/
theorem StartsWithArrow.starts {text : List Char} (h : StartsWithArrow text) :
    ∃ (t : Token) (body : List Char), t.kind = .punctuator .arrow ∧ t.afterNewline = false ∧
      ∀ position, 0 < position → ∃ span stop, 0 < stop ∧
        Cursor.Starts ⟨text, position⟩ { t with span } ⟨body, stop⟩ := by
  obtain ⟨t, c, hnext, hkind, hnewline⟩ := h
  simp only [Cursor.next] at hnext
  split at hnext
  case h_1 => cases hnext
  case h_2 trivia htrivia =>
    split at hnext
    case h_1 => cases hnext
    case h_2 kind lexeme htoken =>
      cases hnext
      obtain ⟨hsplits, hspells, -⟩ := token_ok htoken
      obtain rfl : kind = .punctuator .arrow := hkind
      have htext : lexeme.text = ['=', '>'] := hspells
      have hrest : trivia.rest = '=' :: '>' :: lexeme.rest := by
        rw [← show lexeme.text ++ lexeme.rest = trivia.rest from hsplits, htext]
        rfl
      refine ⟨_, lexeme.rest, rfl, hnewline, fun position hposition => ?_⟩
      let start := position + trivia.offset
      refine ⟨⟨start, start + 2⟩, start + 2, Nat.succ_pos _, fun mode => ?_⟩
      have htrivia : triviaAt position text = .ok trivia := by
        obtain ⟨n, rfl⟩ := Nat.exists_eq_add_one.2 hposition
        exact htrivia
      have htoken : token mode trivia.rest = .ok (.punctuator .arrow, lexeme) := by
        rw [hrest, token_equals, ← hrest, htoken]
      have hlength : byteLength lexeme.text = 2 := by rw [htext]; rfl
      simp only [Cursor.next, htrivia, htoken, hlength, start]

theorem StartsWithArrow.not_continuesWord {text : List Char} (h : StartsWithArrow text) :
    ¬ text.head?.any continuesWord := by
  obtain ⟨t, c, hnext, hkind, -⟩ := h
  obtain ⟨gap, htext, hstands, -⟩ := Cursor.next_ok (show 1 = byteLength ['a'] from rfl) hnext
  have hspells := hstands.spells
  rw [hkind] at hspells
  have htoken : ¬ (t.text.toList ++ c.rest).head?.any continuesWord := by
    rw [show t.text.toList = ['=', '>'] from hspells]
    exact (by decide : ¬ continuesWord '=')
  obtain htrivia | ⟨hbefore, -⟩ := hstands.isTrivia
  · rw [show text = _ from htext, List.append_assoc]
    exact htrivia.head_not_continuesWord htoken
  · cases hbefore

end ScriptMin
