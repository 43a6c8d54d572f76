import ScriptMin.Proofs.Reading.Row
import ScriptMin.Proofs.Reading.Runs

/-!
# Places between tokens

What the readers of single tokens do to a reader that stands in a source. The token ahead, if there
is one, is what reading at the cursor gives, so a token is always read from the text before it.
`Takes` and `Sees` say that the next token was consumed, or looked at; `Spans` and `Reads` say which
nodes stand between two places, and `Reads` also that a token was passed on the way.
-/

namespace ScriptMin

open Source

/-! ## Cursors -/

namespace Cursor

/-- The cursor stands between two characters of the source. -/
def StandsIn (source : List Char) (c : Cursor) : Prop :=
  ∃ before, source = before ++ c.rest ∧ c.position = byteLength before

/-- A token, which is not the end of the input, lies between the cursor and the position. -/
def Passes (c : Cursor) (position : Nat) : Prop :=
  ∃ mode t after, c.next mode = .ok (t, after) ∧ t.kind ≠ .endOfInput ∧ after.position ≤ position

variable {source : List Char} {c c' : Cursor} {mode : SlashMode} {t : Token} {p q : Nat}

theorem standsIn_ofSource (source : List Char) : (Cursor.ofSource source).StandsIn source :=
  ⟨[], rfl, rfl⟩

/-- Every cursor stands in a source: the text before it can be any of so many bytes. -/
theorem exists_standsIn (c : Cursor) : ∃ source, c.StandsIn source := by
  refine ⟨List.replicate c.position 'a' ++ c.rest, _, rfl, ?_⟩
  induction c.position with
  | zero => rfl
  | succ n ih =>
    rw [List.replicate_succ, byteLength, ← ih, show 'a'.utf8Size = 1 from rfl, Nat.add_comm]

theorem StandsIn.isBoundary (h : c.StandsIn source) : IsBoundary source c.position := by
  obtain ⟨before, hsource, hposition⟩ := h
  exact ⟨before, c.rest, hsource, hposition⟩

/-- The further a cursor is, the less is left. -/
theorem StandsIn.length_lt (h : c.StandsIn source) (h' : c'.StandsIn source)
    (hlt : c.position < c'.position) : c'.rest.length < c.rest.length := by
  obtain ⟨before, hsource, hposition⟩ := h
  obtain ⟨before', hsource', hposition'⟩ := h'
  by_contra hle
  obtain ⟨between, hrest⟩ := List.suffix_of_suffix_length_le ⟨before, hsource.symm⟩
    ⟨before', hsource'.symm⟩ (Nat.le_of_not_lt hle)
  have hbytes := congrArg byteLength (hsource.symm.trans hsource')
  rw [← hrest] at hbytes
  simp only [byteLength_append] at hbytes
  omega

theorem StandsIn.length_le (h : c.StandsIn source) (h' : c'.StandsIn source)
    (hle : c.position ≤ c'.position) : c'.rest.length ≤ c.rest.length := by
  by_contra hlt
  obtain ⟨before, hsource, hposition⟩ := h
  obtain ⟨before', hsource', hposition'⟩ := h'
  obtain ⟨between, hrest⟩ := List.suffix_of_suffix_length_le ⟨before, hsource.symm⟩
    ⟨before', hsource'.symm⟩ (Nat.le_of_not_le hlt |>.trans le_rfl)
  have hbetween : between ≠ [] := by
    rintro rfl
    rw [← hrest] at hlt
    exact hlt le_rfl
  have hbytes := congrArg byteLength (hsource.symm.trans hsource')
  rw [← hrest] at hbytes
  have := byteLength_pos hbetween
  simp only [byteLength_append] at hbytes
  omega

/-- Where a token leaves the cursor, and where it stands itself. -/
structure Lexed (source : List Char) (c : Cursor) (t : Token) (c' : Cursor) : Prop where
  standsIn : c'.StandsIn source
  encloses : Encloses source c.position t.span [] c'.position
  endsWith : t.span.EndsWith source t.text
  stop : t.span.stop = c'.position
  lt : t.kind ≠ .endOfInput → c.position < c'.position

theorem StandsIn.lexed (hc : c.StandsIn source) (h : c.next mode = .ok (t, c')) :
    Lexed source c t c' := by
  obtain ⟨before, hsource, hposition⟩ := hc
  obtain ⟨gap, hrest, hstands, hposition'⟩ := next_ok hposition h
  rw [hrest] at hsource
  have hspan := hstands.span
  have hsource' : source = before ++ gap ++ t.text.toList ++ c'.rest := by
    rw [hsource]
    simp only [List.append_assoc]
  have hstop : t.span.stop = c'.position := by rw [hspan, hposition']
  have hle : t.span.start ≤ t.span.stop := by
    rw [hspan]
    simp only [byteLength_append]
    omega
  refine ⟨⟨_, hsource', hposition'⟩, ⟨?_, ?_, .nil hle, ?_, hstop.le⟩, ?_, hstop, fun hkind => ?_⟩
  · rw [hspan, hposition]
    simp only [byteLength_append]
    omega
  · exact ⟨before ++ gap, t.text.toList ++ c'.rest, by simpa using hsource', by rw [hspan]⟩
  · exact ⟨_, c'.rest, hsource', by rw [hspan]⟩
  · exact ⟨before ++ gap, c'.rest, hsource', by rw [hspan], by rw [hspan]⟩
  · have htext := byteLength_pos (mt hstands.spells.eq_nil_iff.1 hkind)
    rw [hposition, hposition']
    simp only [byteLength_append]
    omega

theorem StandsIn.templateTail (hc : c.StandsIn source) (h : c.templateTail = .ok (t, c')) :
    c'.StandsIn source ∧ Encloses source c.position t.span [] c'.position := by
  obtain ⟨before, hsource, hposition⟩ := hc
  simp only [Cursor.templateTail] at h
  split at h
  case h_1 => cases h
  case h_2 isLast lexeme hbody =>
    cases h
    obtain ⟨hsplits, -⟩ := Lexer.templateBody_ok hbody
    have hsplits : lexeme.text ++ lexeme.rest = c.rest := hsplits
    have hsource' : source = before ++ lexeme.text ++ lexeme.rest := by
      rw [hsource, List.append_assoc, hsplits]
    have hstop : c.position + byteLength lexeme.text = byteLength (before ++ lexeme.text) := by
      rw [hposition, byteLength_append]
    exact ⟨⟨_, hsource', hstop⟩, le_rfl, ⟨before, c.rest, hsource, hposition⟩,
      .nil (Nat.le_add_right ..), ⟨_, lexeme.rest, hsource', hstop⟩, le_rfl⟩

theorem Passes.mono (h : c.Passes p) (hle : p ≤ q) : c.Passes q := by
  obtain ⟨mode, t, after, hnext, hkind, hafter⟩ := h
  exact ⟨mode, t, after, hnext, hkind, hafter.trans hle⟩

theorem Passes.lt (h : c.Passes p) (hc : c.StandsIn source) : c.position < p := by
  obtain ⟨mode, t, after, hnext, hkind, hafter⟩ := h
  exact ((hc.lexed hnext).lt hkind).trans_le hafter

end Cursor

namespace Grammar

open Parse

/-! ## Readers in a source -/

/-- The token ahead is the one that reading at the cursor gives. -/
def Reader.Coherent (r : Reader) : Prop :=
  ∀ a ∈ r.ahead, r.cursor.next a.mode = .ok (a.token, a.after)

theorem Reader.coherent_fresh (c : Cursor) : Reader.Coherent ⟨c, none⟩ :=
  fun a h => absurd h (Option.not_mem_none a)

/-- The reader stands in the source, before fewer characters than `limit`. -/
structure Reader.Good (source : List Char) (limit : Nat) (r : Reader) : Prop where
  standsIn : r.cursor.StandsIn source
  coherent : r.Coherent
  left : r.cursor.rest.length < limit

/-- The next token is consumed, and it is not the end of the input. -/
structure Reader.Takes (mode : SlashMode) (r : Reader) (t : Token) (r' : Reader) : Prop where
  lexed : r.cursor.next mode = .ok (t, r'.cursor)
  ahead : r'.ahead = none
  kind : t.kind ≠ .endOfInput

/-- The next token is looked at. -/
def Reader.Sees (mode : SlashMode) (r : Reader) (t : Token) (r' : Reader) : Prop :=
  ∃ after, r.cursor.next mode = .ok (t, after) ∧ r' = ⟨r.cursor, some ⟨t, mode, after⟩⟩

/-- The nodes stand between the cursor and the reader. Between them there is a token, or no
character. -/
structure Spans (source : List Char) (limit : Nat) (c : Cursor) (ns : List Node) (r : Reader) :
    Prop where
  good : r.Good source limit
  row : Row source c.position ns r.cursor.position
  moved : r.cursor = c ∨ c.Passes r.cursor.position

/-- The nodes stand between the cursor and the reader, and a token does. -/
structure Reads (source : List Char) (limit : Nat) (c : Cursor) (ns : List Node) (r : Reader) :
    Prop where
  good : r.Good source limit
  row : Row source c.position ns r.cursor.position
  passes : c.Passes r.cursor.position

theorem Reads.toSpans {source : List Char} {limit : Nat} {c : Cursor} {ns : List Node} {r : Reader}
    (h : Reads source limit c ns r) : Spans source limit c ns r :=
  { h with moved := .inr h.passes }

section

variable {source : List Char} {limit limit' : Nat} {r r' : Reader} {mode : SlashMode} {t : Token}
  {c : Cursor} {xs ys : List Node} {position : Nat}

namespace Reader

theorem Good.mono (h : r.Good source limit) (hle : limit ≤ limit') : r.Good source limit' :=
  { h with left := h.left.trans_le hle }

theorem Good.weaken (h : r.Good source limit) : r.Good source (limit + 1) :=
  h.mono (Nat.le_succ _)

/-- The place of a reader, without the token ahead. -/
theorem Good.bare (h : r.Good source limit) : Good source limit ⟨r.cursor, none⟩ :=
  ⟨h.standsIn, coherent_fresh _, h.left⟩

/-- A reader that is not behind another one has no more left. -/
theorem Good.of_le (h : r.Good source limit) (h' : r'.Good source limit')
    (hle : r.cursor.position ≤ r'.cursor.position) : r'.Good source limit :=
  { h' with left := (h.standsIn.length_le h'.standsIn hle).trans_lt h.left }

theorem Sees.good (hs : r.Sees mode t r') (h : r.Good source limit) : r'.Good source limit := by
  obtain ⟨after, hlexed, rfl⟩ := hs
  refine ⟨h.standsIn, fun a ha => ?_, h.left⟩
  cases ha
  exact hlexed

/-- A token that was looked at is the one that is consumed from the same place. -/
theorem Sees.eq_of_takes {r₁ r₂ : Reader} {u : Token} (hs : r.Sees mode t r')
    (ht : r₁.Takes mode u r₂) (hcursor : r₁.cursor = r.cursor) : u = t := by
  obtain ⟨after, hnext, -⟩ := hs
  have hlexed := ht.lexed
  rw [hcursor, hnext] at hlexed
  cases hlexed
  rfl

theorem Sees.cursor (hs : r.Sees mode t r') : r'.cursor = r.cursor := by
  obtain ⟨after, hlexed, rfl⟩ := hs
  rfl

/-- A token that is consumed after a look is consumed from where the look was. -/
theorem Sees.takes {r'' : Reader} {mode' : SlashMode} {u : Token} (hs : r.Sees mode t r')
    (hu : r'.Takes mode' u r'') : r.Takes mode' u r'' :=
  { hu with lexed := hs.cursor ▸ hu.lexed }

namespace Takes

theorem passes (ht : r.Takes mode t r') : r.cursor.Passes r'.cursor.position :=
  ⟨mode, t, r'.cursor, ht.lexed, ht.kind, le_rfl⟩

theorem lexedIn (ht : r.Takes mode t r') (h : r.Good source limit) :
    r.cursor.Lexed source t r'.cursor :=
  h.standsIn.lexed ht.lexed

theorem encloses (ht : r.Takes mode t r') (h : r.Good source limit) :
    Encloses source r.cursor.position t.span [] r'.cursor.position :=
  (ht.lexedIn h).encloses

theorem le (ht : r.Takes mode t r') (h : r.Good source limit) :
    r.cursor.position ≤ r'.cursor.position :=
  (ht.encloses h).le

theorem lt (ht : r.Takes mode t r') (h : r.Good source limit) :
    r.cursor.position < r'.cursor.position :=
  ht.passes.lt h.standsIn

/-- A token that is consumed leaves less than there was. -/
theorem good (ht : r.Takes mode t r') (h : r.Good source (limit + 1)) : r'.Good source limit := by
  have hstands := (ht.lexedIn h).standsIn
  have hlt := h.standsIn.length_lt hstands (ht.lt h)
  have hleft := h.left
  exact ⟨hstands, by simp [Coherent, ht.ahead], by omega⟩

theorem reads (ht : r.Takes mode t r') (h : r.Good source (limit + 1)) :
    Reads source limit r.cursor [] r' :=
  ⟨ht.good h, .nil (ht.le h), ht.passes⟩

theorem spans (ht : r.Takes mode t r') (h : r.Good source (limit + 1)) :
    Spans source limit r.cursor [] r' :=
  (ht.reads h).toSpans

end Takes

end Reader

namespace Spans

theorem refl (h : r.Good source limit) : Spans source limit r.cursor [] r :=
  ⟨h, .nil le_rfl, .inl rfl⟩

theorem append (hx : Spans source limit c xs r) (hy : Spans source limit' r.cursor ys r') :
    Spans source limit c (xs ++ ys) r' where
  good := hx.good.of_le hy.good hy.row.le
  row := hx.row.append hy.row
  moved := by
    rcases hx.moved with hc | hpasses
    · exact hc ▸ hy.moved
    · exact .inr (hpasses.mono hy.row.le)

/-- What reads on behind nothing reads on from the start. -/
theorem reads (hx : Spans source limit c xs r) (hy : Reads source limit' r.cursor ys r') :
    Reads source limit' c (xs ++ ys) r' where
  good := hy.good
  row := hx.row.append hy.row
  passes := by
    rcases hx.moved with hc | hpasses
    · exact hc ▸ hy.passes
    · exact hpasses.mono hy.row.le

/-- What stands between two places can be read as other nodes. -/
theorem of_row (hx : Spans source limit c xs r) (hy : Row source c.position ys r.cursor.position) :
    Spans source limit c ys r :=
  { hx with row := hy }

/-- A look at the next token changes nothing. -/
theorem sees (hx : Spans source limit c xs r) (hs : r.Sees mode t r') :
    Spans source limit c xs r' :=
  ⟨hs.good hx.good, hs.cursor ▸ hx.row, hs.cursor ▸ hx.moved⟩

/-- Tokens are no nodes. -/
theorem skips (hx : Spans source limit c xs r) (hy : Spans source limit' r.cursor [] r') :
    Spans source limit c xs r' := by
  simpa using hx.append hy

theorem takes (hx : Spans source limit c xs r) (ht : r.Takes mode t r') :
    Spans source limit c xs r' :=
  hx.skips (ht.spans hx.good.weaken)

/-- Nothing stands behind the nodes. -/
theorem noRest (hx : Spans source limit c xs r) :
    Spans source limit c (xs ++ (none : Option Node).toList) r := by
  simpa using hx

/-- A row that is collected backwards grows at its end. -/
theorem snoc {n : Node} (hx : Spans source limit c xs.reverse r)
    (hn : Spans source limit' r.cursor [n] r') : Spans source limit c (n :: xs).reverse r' :=
  List.reverse_cons ▸ hx.append hn

theorem snocParts {β : Type} {parts : β → List Node} {read : List β} {x : β}
    (hx : Spans source limit c (read.reverse.flatMap parts) r)
    (hn : Spans source limit' r.cursor (parts x) r') :
    Spans source limit c ((x :: read).reverse.flatMap parts) r' := by
  simpa using hx.append hn

end Spans

namespace Reads

theorem sees (hx : Reads source limit c xs r) (hs : r.Sees mode t r') :
    Reads source limit c xs r' :=
  ⟨hs.good hx.good, hs.cursor ▸ hx.row, hs.cursor ▸ hx.passes⟩

theorem skips (hx : Reads source limit c xs r) (hy : Spans source limit' r.cursor [] r') :
    Reads source limit c xs r' :=
  { hx.toSpans.skips hy with passes := hx.passes.mono hy.row.le }

theorem takes (hx : Reads source limit c xs r) (ht : r.Takes mode t r') :
    Reads source limit c xs r' :=
  hx.skips (ht.spans hx.good.weaken)

theorem append (hx : Reads source limit c xs r) (hy : Spans source limit' r.cursor ys r') :
    Reads source limit c (xs ++ ys) r' :=
  { hx.toSpans.append hy with passes := hx.passes.mono hy.row.le }

theorem bare (hx : Reads source limit c xs r) : Reads source limit c xs ⟨r.cursor, none⟩ :=
  { hx with good := hx.good.bare }

/-- What was read up to one place was read up to a later one. -/
theorem upTo (hx : Reads source limit c xs r) (h : r'.Good source limit)
    (hle : r.cursor.position ≤ r'.cursor.position) : Reads source limit c xs r' :=
  ⟨h, hx.row.mono le_rfl hle, hx.passes.mono hle⟩

/-- What stands between two places can be read as other nodes. -/
theorem of_row (hx : Reads source limit c xs r) (hy : Row source c.position ys r.cursor.position) :
    Reads source limit c ys r :=
  { hx with row := hy }

theorem lt (hx : Reads source limit r.cursor xs r') (h : r.Good source limit') :
    r.cursor.position < r'.cursor.position :=
  hx.passes.lt h.standsIn

theorem weaken (hx : Reads source limit c xs r) : Reads source (limit + 1) c xs r :=
  { hx with good := hx.good.weaken }

end Reads

/-! ## Nodes from one token on -/

section Node

variable (shape : Shape Node) (h : r.Good source limit)

include h

/-- A node from where the reader stood. -/
theorem Spans.node (hx : Spans source limit' r.cursor xs r') (hshape : shape.children = xs)
    (hshort : ∀ name ∈ shape.shorthand?,
      Span.EndsWith source ⟨r.cursor.position, r'.cursor.position⟩ name) :
    Spans source limit' r.cursor [⟨⟨r.cursor.position, r'.cursor.position⟩, shape⟩] r' :=
  hx.of_row (Encloses.node shape ⟨le_rfl, h.standsIn.isBoundary, hshape ▸ hx.row,
    hx.good.standsIn.isBoundary, le_rfl⟩ hshort)

theorem Reads.node (hx : Reads source limit' r.cursor xs r') (hshape : shape.children = xs)
    (hshort : ∀ name ∈ shape.shorthand?,
      Span.EndsWith source ⟨r.cursor.position, r'.cursor.position⟩ name) :
    Reads source limit' r.cursor [⟨⟨r.cursor.position, r'.cursor.position⟩, shape⟩] r' :=
  hx.of_row (hx.toSpans.node shape h hshape hshort).row

end Node

/-- A node of the same span around its only child. -/
theorem Reads.wrap {n : Node} (shape : Shape Node) (hx : Reads source limit c [n] r)
    (hshape : shape.children = [n])
    (hshort : ∀ name ∈ shape.shorthand?, n.span.EndsWith source name) :
    Reads source limit c [⟨n.span, shape⟩] r :=
  hx.of_row (Encloses.node shape (hshape ▸ Encloses.of_node hx.row) hshort)

section GoesOn

variable {shape : Shape Node} {left : Node} {u : Span} {zs : List Node} {r₁ r₂ : Reader}

/-- A node that goes on from the span of its left end to the end of a later span. -/
theorem Reads.covers (hleft : Reads source limit c [left] r)
    (hzs : Row source left.span.start zs left.span.stop)
    (hx : Spans source limit' r.cursor xs r₁)
    (hu : Encloses source r₁.cursor.position u ys r₂.cursor.position) (h₂ : r₂.Good source limit)
    (hshape : shape.children = zs ++ xs ++ ys)
    (hshort : ∀ name ∈ shape.shorthand?, (left.span.cover u).EndsWith source name) :
    Reads source limit c [⟨left.span.cover u, shape⟩] r₂ := by
  have hcover := Encloses.cover { Encloses.of_node hleft.row with row := hzs } hx.row hu
  rw [← hshape] at hcover
  exact ⟨h₂, Encloses.node _ hcover hshort, hleft.passes.mono (hx.row.le.trans hu.le)⟩

/-- A node that goes on from its leftmost child to the end of a later span. -/
theorem Reads.goesOn (hleft : Reads source limit c [left] r)
    (hx : Spans source limit' r.cursor xs r₁)
    (hu : Encloses source r₁.cursor.position u ys r₂.cursor.position) (h₂ : r₂.Good source limit)
    (hshape : shape.children = [left] ++ xs ++ ys)
    (hshort : ∀ name ∈ shape.shorthand?, (left.span.cover u).EndsWith source name) :
    Reads source limit c [⟨left.span.cover u, shape⟩] r₂ :=
  hleft.covers (Encloses.of_node hleft.row).row hx hu h₂ hshape hshort

end GoesOn

namespace Reader.Takes

variable {shape : Shape Node} {n : Node} {r₁ r₂ : Reader} {mode' : SlashMode} {close : Token}

/-- A token by itself. -/
theorem alone (ht : r.Takes mode t r') (shape : Shape Node) (h : r.Good source (limit + 1))
    (hshape : shape.children = [])
    (hshort : ∀ name ∈ shape.shorthand?, t.span.EndsWith source name) :
    Reads source limit r.cursor [⟨t.span, shape⟩] r' :=
  (ht.reads h).of_row (Encloses.node shape (hshape.symm ▸ ht.encloses h) hshort)

/-- From one token to another. -/
theorem bracketed (ht : r.Takes mode t r₁) (h : r.Good source (limit + 1))
    (hx : Spans source limit r₁.cursor shape.children r₂) (hclose : r₂.Takes mode' close r')
    (hshort : ∀ name ∈ shape.shorthand?, (t.span.cover close.span).EndsWith source name) :
    Reads source limit r.cursor [⟨t.span.cover close.span, shape⟩] r' :=
  (((ht.reads h).append hx).takes hclose).of_row
    (Encloses.node _ ((ht.encloses h).between hx.row (hclose.encloses hx.good)) hshort)

/-- A token in front of the only child. -/
theorem before (ht : r.Takes mode t r₁) (h : r.Good source (limit + 1))
    (hx : Spans source limit r₁.cursor [n] r') (hshape : shape.children = [n])
    (hshort : ∀ name ∈ shape.shorthand?, (t.span.cover n.span).EndsWith source name) :
    Reads source limit r.cursor [⟨t.span.cover n.span, shape⟩] r' := by
  have hcover := (ht.encloses h).upTo hx.row
  rw [List.nil_append, ← hshape] at hcover
  exact ((ht.reads h).append hx).of_row (Encloses.node _ hcover hshort)

/-- From a token up to the end of the last child. -/
theorem upTo (ht : r.Takes mode t r₁) (h : r.Good source (limit + 1))
    (hx : Spans source limit r₁.cursor (xs ++ [n]) r') (hshape : shape.children = xs ++ [n])
    (hshort : ∀ name ∈ shape.shorthand?, (t.span.cover n.span).EndsWith source name) :
    Reads source limit r.cursor [⟨t.span.cover n.span, shape⟩] r' := by
  obtain ⟨mid, hxs, hn⟩ := hx.row.split
  have hcover := (ht.encloses h).cover hxs (.of_node hn)
  rw [List.nil_append, ← hshape] at hcover
  exact ((ht.reads h).append hx).of_row (Encloses.node _ hcover hshort)

end Reader.Takes

end

end Grammar

end ScriptMin
