import ScriptMin.Proofs.Token.Lexeme
import ScriptMin.Proofs.Token.Trivia

/-!
# Tokens tile the source

A run of the lexer reads a source from left to right: trivia, a token, trivia, a token, and so on
until the modes are used up or a call fails. `Tiles` is what one call after another builds, and
everything below is read off it: where each token stands and what is before it, that tokens do not
overlap, and how many of them there can be.
-/

namespace ScriptMin

open Source Lexer

/-- Reads one token for each mode. A call that fails ends the run, and its error comes with the
tokens before it. -/
def Cursor.tokens : List SlashMode → Cursor → List Token × Except SyntaxError Cursor
  | [], c => ([], .ok c)
  | mode :: modes, c =>
    match c.next mode with
    | .error e => ([], .error e)
    | .ok (t, c) =>
      let (ts, last) := c.tokens modes
      (t :: ts, last)

/-! ## Spans of a text -/

namespace Source

theorem byteLength_pos {text : List Char} (h : text ≠ []) : 0 < byteLength text := by
  cases text with
  | nil => exact absurd rfl h
  | cons c rest =>
    have hc := c.utf8Size_pos
    simp only [byteLength]
    omega

theorem byteLength_eq_zero {text : List Char} (h : byteLength text = 0) : text = [] := by
  by_contra hne
  have := byteLength_pos hne
  omega

theorem Span.dropBytes_byteLength (before text : List Char) :
    dropBytes (byteLength before) (before ++ text) = text := by
  induction before with
  | nil => cases text <;> rfl
  | cons c before ih =>
    obtain ⟨n, hn⟩ := Nat.exists_eq_succ_of_ne_zero c.utf8Size_pos.ne'
    have hbytes : byteLength (c :: before) = n + byteLength before + 1 := by
      simp only [byteLength]
      omega
    have hleft : n + byteLength before + 1 - c.utf8Size = byteLength before := by omega
    rw [hbytes, List.cons_append, dropBytes, hleft, ih]

theorem Span.takeBytes_byteLength (text after : List Char) :
    takeBytes (byteLength text) (text ++ after) = text := by
  induction text with
  | nil => cases after <;> rfl
  | cons c text ih =>
    obtain ⟨n, hn⟩ := Nat.exists_eq_succ_of_ne_zero c.utf8Size_pos.ne'
    have hbytes : byteLength (c :: text) = n + byteLength text + 1 := by
      simp only [byteLength]
      omega
    have hleft : n + byteLength text + 1 - c.utf8Size = byteLength text := by omega
    rw [hbytes, List.cons_append, takeBytes, hleft, ih]

/-- A span between whole characters selects the characters there. -/
theorem Span.slice_between (before text after : List Char) :
    slice (before ++ text ++ after) ⟨byteLength before, byteLength (before ++ text)⟩ = text := by
  have hlength : (⟨byteLength before, byteLength (before ++ text)⟩ : Span).length =
      byteLength text := by
    simp [Span.length, byteLength_append]
  rw [slice, hlength, List.append_assoc, dropBytes_byteLength, takeBytes_byteLength]

end Source

/-! ## One token -/

/-- The token stands between `before` and `after`, with `gap` in front of it: its span is that of
its text, the gap is all the trivia there is, and its text fits its kind. -/
structure Token.Stands (t : Token) (before gap after : List Char) : Prop where
  span : t.span = ⟨byteLength (before ++ gap), byteLength (before ++ gap ++ t.text.toList)⟩
  isTrivia : IsTrivia (t.text.toList ++ after) gap ∨
    before = [] ∧ IsLeadingTrivia (t.text.toList ++ after) gap
  isAll : startsTrivia (t.text.toList ++ after) = false
  afterNewline : t.afterNewline = gap.any isLineTerminator
  spells : Spells t.kind t.text.toList
  atEnd : t.kind = .endOfInput → after = []

namespace Token.Stands

variable {t : Token} {before gap after : List Char}

/-- A token selects its own text from the source. -/
theorem slice (h : t.Stands before gap after) :
    t.span.slice (before ++ gap ++ t.text.toList ++ after) = t.text.toList := by
  rw [h.span, Span.slice_between]

/-- A token is the end of the input, at the end of the source, or it takes up some bytes. -/
theorem atEnd_or_lt (h : t.Stands before gap after) {source : List Char}
    (hsource : source = before ++ gap ++ t.text.toList ++ after) :
    t.kind = .endOfInput ∧ t.span = ⟨byteLength source, byteLength source⟩ ∨
      t.kind ≠ .endOfInput ∧ t.span.start < t.span.stop := by
  by_cases hkind : t.kind = .endOfInput
  · have htext := h.spells.eq_nil_iff.2 hkind
    left
    rw [h.span, hsource, h.atEnd hkind, htext, List.append_nil, List.append_nil]
    exact ⟨hkind, rfl⟩
  · have htext := byteLength_pos (mt h.spells.eq_nil_iff.1 hkind)
    right
    rw [h.span]
    simp only [byteLength_append]
    exact ⟨hkind, by omega⟩

/-- A token is no comment and no space. -/
theorem startsTrivia_text (h : t.Stands before gap after) :
    startsTrivia t.text.toList = false := by
  by_contra htext
  have hall : startsTrivia (t.text.toList ++ after) := startsTrivia_append (by simpa using htext)
  rw [h.isAll] at hall
  cases hall

end Token.Stands

/-- One call reads on from where the cursor stands. -/
theorem Cursor.next_ok {mode : SlashMode} {c c' : Cursor} {t : Token} {before : List Char}
    (hc : c.position = byteLength before) (h : c.next mode = .ok (t, c')) :
    ∃ gap, c.rest = gap ++ t.text.toList ++ c'.rest ∧ t.Stands before gap c'.rest ∧
      c'.position = byteLength (before ++ gap ++ t.text.toList) := by
  simp only [next] at h
  split at h
  case h_1 => cases h
  case h_2 trivia htrivia =>
    split at h
    case h_1 => cases h
    case h_2 kind lexeme htoken =>
      cases h
      obtain ⟨gap, hskips, hgap, hends⟩ := triviaAt_ok htrivia
      obtain ⟨hsplits, hspells, hatEnd⟩ := token_ok htoken
      have hrest : trivia.rest = lexeme.text ++ lexeme.rest := hsplits.symm
      have hstart : c.position + trivia.offset = byteLength (before ++ gap) := by
        rw [hskips.offset, hc, byteLength_append, Nat.zero_add]
      have hstop : c.position + trivia.offset + byteLength lexeme.text =
          byteLength (before ++ gap ++ lexeme.text) := by
        rw [hstart, byteLength_append (before ++ gap)]
      refine ⟨gap, ?_, ?_, ?_⟩
      · rw [hskips.text, hrest, String.toList_ofList, List.append_assoc]
      · constructor
        case span => rw [String.toList_ofList, hstart, ← hstop, hstart]
        case isTrivia =>
          rw [String.toList_ofList, ← hrest]
          refine hgap.imp_right fun hstarts => ⟨?_, hstarts.2⟩
          exact byteLength_eq_zero (hc.symm.trans hstarts.1)
        case isAll => rwa [String.toList_ofList, ← hrest]
        case afterNewline => rw [hskips.newline, Bool.false_or]
        case spells => rwa [String.toList_ofList]
        case atEnd => exact hatEnd
      · rw [String.toList_ofList, hstop]

/-! ## A run -/

/-- The tokens stand one behind the other from `before` on, each with trivia in front of it, and
`after` is left. -/
inductive Tiles (after : List Char) : List Char → List Token → List Char → Prop where
  | nil {before : List Char} : Tiles after before [] after
  | cons {before gap rest : List Char} {t : Token} {ts : List Token}
      (hstands : t.Stands before gap rest)
      (htiles : Tiles after (before ++ gap ++ t.text.toList) ts rest) :
      Tiles after before (t :: ts) (gap ++ t.text.toList ++ rest)

/-- The tokens of a run tile what is read, whether or not its last call fails. -/
theorem Cursor.tokens_tiles (modes : List SlashMode) {c : Cursor} {before : List Char}
    (hc : c.position = byteLength before) :
    ∃ after, Tiles after before (c.tokens modes).1 c.rest := by
  induction modes generalizing c before with
  | nil => exact ⟨c.rest, .nil⟩
  | cons mode modes ih =>
    rw [tokens]
    split
    case h_1 => exact ⟨c.rest, .nil⟩
    case h_2 t c' hnext =>
      obtain ⟨gap, hrest, hstands, hposition⟩ := next_ok hc hnext
      obtain ⟨after, htiles⟩ := ih hposition
      rw [hrest]
      exact ⟨after, .cons hstands htiles⟩

/-- A run that no call ends has a token for each mode. -/
theorem Cursor.length_tokens (modes : List SlashMode) {c last : Cursor}
    (h : (c.tokens modes).2 = .ok last) : (c.tokens modes).1.length = modes.length := by
  induction modes generalizing c with
  | nil => rfl
  | cons mode modes ih =>
    rw [tokens] at h ⊢
    split at h
    case h_1 => cases h
    case h_2 t c' hnext => exact congrArg (· + 1) (ih h)

/-- Where the last of the tokens stops, or `start` if there is none. -/
def Token.stopOf (start : Nat) (ts : List Token) : Nat :=
  (ts.getLast?.map (·.span.stop)).getD start

theorem Token.stopOf_cons (start : Nat) (t : Token) (ts : List Token) :
    stopOf start (t :: ts) = stopOf t.span.stop ts := by
  unfold stopOf
  cases ts with
  | nil => rfl
  | cons u us => simp [List.getLast?_eq_some_getLast]

namespace Tiles

variable {after before text : List Char} {ts : List Token}

/-- Each token stands behind the one before it, with a gap of trivia between them. -/
theorem stands (h : Tiles after before ts text) {us vs : List Token} {t : Token}
    (hts : ts = us ++ t :: vs) :
    ∃ read gap rest, before ++ text = read ++ gap ++ t.text.toList ++ rest ∧
      byteLength read = Token.stopOf (byteLength before) us ∧ t.Stands read gap rest := by
  induction h generalizing us with
  | nil => simp at hts
  | @cons before gap rest u ts hstands _ ih =>
    cases us with
    | nil =>
      cases hts
      exact ⟨before, gap, rest, by simp [List.append_assoc], rfl, hstands⟩
    | cons w us =>
      cases hts
      obtain ⟨read, gap', rest', htext, hread, hstands'⟩ := ih rfl
      refine ⟨read, gap', rest', ?_, ?_, hstands'⟩
      · simpa [List.append_assoc] using htext
      · rw [hread, Token.stopOf_cons, hstands.span]

/-- All tokens start where the text starts, or later. -/
theorem start_le (h : Tiles after before ts text) : ∀ t ∈ ts, byteLength before ≤ t.span.start := by
  induction h with
  | nil => exact nofun
  | @cons before gap rest t ts hstands _ ih =>
    refine List.forall_mem_cons.2 ⟨?_, fun u hu => ?_⟩
    · rw [hstands.span, byteLength_append]
      exact Nat.le_add_right ..
    · have hu := ih u hu
      simp only [byteLength_append] at hu
      omega

/-- The tokens stand in the order of the run and do not overlap. -/
theorem pairwise (h : Tiles after before ts text) :
    ts.Pairwise fun t u => t.span.stop ≤ u.span.start := by
  induction h with
  | nil => exact .nil
  | cons hstands htiles ih =>
    refine .cons (fun u hu => ?_) ih
    rw [hstands.span]
    exact htiles.start_le u hu

/-- There are no more tokens before the end of the input than there are bytes. -/
theorem length_le (h : Tiles after before ts text) (hts : ∀ t ∈ ts, t.kind ≠ .endOfInput) :
    ts.length ≤ byteLength text := by
  induction h with
  | nil => exact Nat.zero_le _
  | @cons before gap rest t ts hstands _ ih =>
    obtain ⟨ht, hts⟩ := List.forall_mem_cons.1 hts
    have hlength := ih hts
    have htext := byteLength_pos (mt hstands.spells.eq_nil_iff.1 ht)
    simp only [List.length_cons, byteLength_append]
    omega

end Tiles

/-- The tokens of any run tile the source. Between one token and the next there is trivia, all of
it, and the second token is marked exactly if a line ends there. Spans follow one another, each
selects the text of its token, and only the end of the input is empty. No token is a comment or the
bare mark of a base. A run of more calls than there are bytes fails or comes to the end. -/
theorem Cursor.tokens_tile (source : List Char) (modes : List SlashMode) :
    (∀ us t vs, ((Cursor.ofSource source).tokens modes).1 = us ++ t :: vs →
      ∃ read gap rest, source = read ++ gap ++ t.text.toList ++ rest ∧
        byteLength read = Token.stopOf 0 us ∧ t.Stands read gap rest) ∧
    (((Cursor.ofSource source).tokens modes).1.Pairwise fun t u => t.span.stop ≤ u.span.start) ∧
    (∀ t ∈ ((Cursor.ofSource source).tokens modes).1,
      (t.kind = .endOfInput ∧ t.span = ⟨byteLength source, byteLength source⟩ ∨
        t.kind ≠ .endOfInput ∧ t.span.start < t.span.stop) ∧
      t.span.slice source = t.text.toList ∧ startsTrivia t.text.toList = false ∧
      ((announcedBase? t.text.toList).isSome → t.kind = .number ∨ t.kind = .bigInt)) ∧
    (byteLength source < modes.length →
      (∃ e, ((Cursor.ofSource source).tokens modes).2 = .error e) ∨
        ∃ t ∈ ((Cursor.ofSource source).tokens modes).1, t.kind = .endOfInput) := by
  have hstart : (Cursor.ofSource source).position = byteLength [] := rfl
  obtain ⟨after, htiles⟩ := tokens_tiles modes hstart
  refine ⟨fun us t vs hts => htiles.stands hts, htiles.pairwise, fun t ht => ?_, fun hbound => ?_⟩
  · obtain ⟨us, vs, hts⟩ := List.append_of_mem ht
    obtain ⟨read, gap, rest, htext, -, hstands⟩ := htiles.stands hts
    replace htext : source = read ++ gap ++ t.text.toList ++ rest := htext
    refine ⟨hstands.atEnd_or_lt htext, ?_, hstands.startsTrivia_text, hstands.spells.isNumber⟩
    rw [htext]
    exact hstands.slice
  · cases hlast : ((Cursor.ofSource source).tokens modes).2 with
    | error e => exact .inl ⟨e, rfl⟩
    | ok last =>
      right
      by_contra hnone
      -- every mode gave a token, and none of them is empty
      have hlength := length_tokens modes hlast
      have hle := htiles.length_le fun t ht hkind => hnone ⟨t, ht, hkind⟩
      replace hle : _ ≤ byteLength source := hle
      omega

/-- A `#!` line, a comment with a line end inside, and a slash read in either way. -/
example :
    ((Cursor.ofSource "#!x\n/é/é/*\n*//2".toList).tokens [.regex, .division, .division]).1.map
        (fun t => (t.kind, t.span, t.afterNewline)) =
      [(.regex, ⟨4, 8⟩, true), (.identifier, ⟨8, 10⟩, false),
       (.punctuator .slash, ⟨15, 16⟩, true)] := by
  decide +kernel

end ScriptMin
