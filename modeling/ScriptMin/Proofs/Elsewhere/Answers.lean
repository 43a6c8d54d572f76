import ScriptMin.Proofs.Elsewhere.Basic
import ScriptMin.Proofs.Reading.Gives

/-!
# Readers that answer elsewhere

`q.Answers s c R` says that `q` gives a value with `R`, started at `s`, and leaves off where the
text of `c` is ahead. The text is known as that of another place, where it was read before; the
reader there may have looked at other tokens on the way. As for `Gives`, there is one rule for each
way of making a reader, and where the next token is known one rule for each way of asking for it.
-/

namespace ScriptMin

open Source

/-! ## Tokens that are the same in both slash modes -/

theorem Kind.isPropertyName_of_isBindingName {k : Kind} (h : k.isBindingName) :
    k.isPropertyName := by
  cases k <;> first | rfl | cases h

/-- The tokens that stand for something else where a slash starts a regular expression. -/
def Kind.divides (k : Kind) : Bool :=
  k matches .punctuator .slash | .punctuator .slashEquals

/-- A token that is no division is the same where a slash starts a regular expression. -/
theorem Lexer.token_of_division {text : List Char} {kind : Kind} {l : Lexeme}
    (h : token .division text = .ok (kind, l)) (hkind : kind.divides = false) (mode : SlashMode) :
    token mode text = .ok (kind, l) := by
  cases text with
  | nil => exact h
  | cons c rest =>
    by_cases hc : c = '/'
    · subst hc
      have hpunctuator : punctuator ('/' :: rest) = .ok (kind, l) := h
      unfold punctuator at hpunctuator
      split at hpunctuator
      case h_1 => cases hpunctuator
      case h_2 p hlongest =>
        have hprefix := Punctuator.longest?_prefix hlongest
        have hp : p = .slash ∨ p = .slashEquals := by
          revert hprefix
          cases p <;> simp [Punctuator.spelling]
        rcases hp with rfl | rfl <;> cases hpunctuator <;> cases hkind
    · have hslash : (c == '/') = false := beq_eq_false_iff_ne.2 hc
      unfold token at h ⊢
      simp only [hslash, Bool.false_and] at h ⊢
      exact h

namespace Cursor

variable {c c' d : Cursor} {t : Token}

theorem starts_of_next (h : c.next .division = .ok (t, c')) (hkind : t.kind.divides = false) :
    c.Starts t c' := by
  intro mode
  obtain ⟨trivia, kind, lexeme, htrivia, htoken, rfl, rfl⟩ := next_eq_ok.1 h
  exact next_eq_ok.2 ⟨trivia, kind, lexeme, htrivia, Lexer.token_of_division htoken hkind mode, rfl,
    rfl⟩

theorem starts_punctuator {p : Punctuator} (h : c.next .division = .ok (t, c'))
    (ht : t.kind = .punctuator p) (hp : (Kind.punctuator p).divides = false := by rfl) :
    c.Starts t c' :=
  starts_of_next h (ht ▸ hp)

theorem starts_propertyName (h : c.next .division = .ok (t, c')) (ht : t.kind.isPropertyName) :
    c.Starts t c' := by
  refine starts_of_next h ?_
  generalize t.kind = kind at ht
  cases kind <;> first | rfl | cases ht

/-- A token that is the same in both modes is so at every place with the same text. -/
theorem Alike.starts (h : c.Alike d) (ht : c.Starts t c') :
    ∃ span d', d.Starts { t with span } d' ∧ c'.Alike d' := by
  obtain ⟨trivia, kind, lexeme, htrivia, htoken, rfl, rfl⟩ := next_eq_ok.1 (ht .division)
  refine ⟨⟨d.position + trivia.offset, d.position + trivia.offset + byteLength lexeme.text⟩,
    ⟨lexeme.rest, d.position + trivia.offset + byteLength lexeme.text⟩, fun mode => ?_, ?_⟩
  · obtain ⟨trivia', kind', lexeme', htrivia', htoken', ht', hc'⟩ := next_eq_ok.1 (ht mode)
    obtain rfl : trivia = trivia' := by simpa [htrivia] using htrivia'
    have hkind : kind = kind' := congrArg Token.kind ht'
    have hrest : lexeme.rest = lexeme'.rest := congrArg Cursor.rest hc'
    have htext : lexeme.text = lexeme'.text := by
      simpa using congrArg (fun t => t.text.toList) ht'
    exact next_eq_ok.2 ⟨trivia, kind', lexeme', h.triviaAt ▸ htrivia, htoken', by rw [hkind, htext],
      by rw [hrest, htext]⟩
  · simpa only [Nat.add_assoc] using h.advance lexeme.rest (trivia.offset + byteLength lexeme.text)

/-- A token, which is not the end of the input, leaves less than there was. -/
theorem shorter_of_next {mode : SlashMode} (h : c.next mode = .ok (t, c'))
    (hkind : t.kind ≠ .endOfInput) : c'.rest.length < c.rest.length := by
  obtain ⟨source, hstands⟩ := c.exists_standsIn
  have hlexed := hstands.lexed h
  exact hstands.length_lt hlexed.standsIn (hlexed.lt hkind)

theorem Starts.shorter {p : Punctuator} (h : c.Starts t c') (ht : t.kind = .punctuator p) :
    c'.rest.length < c.rest.length :=
  shorter_of_next (h .division) (ht ▸ nofun)

theorem Starts.shorter_name (h : c.Starts t c') (ht : t.kind.isPropertyName) :
    c'.rest.length < c.rest.length :=
  shorter_of_next (h .division) fun hend => by rw [hend] at ht; cases ht

end Cursor

namespace Grammar

open Parse

/-! ## Readers beside one another -/

/-- The same text is ahead of the reader as at `c`, wherever that stands. -/
structure Reader.Beside (s : Reader) (c : Cursor) : Prop where
  coherent : s.Coherent
  cursor : c.Alike s.cursor

/-- From `s` the reader gives a value with `R`, and leaves off beside `c`. -/
def Parse.Answers {β : Type} (q : Parse β) (s : Reader) (c : Cursor) (R : β → Prop) : Prop :=
  ∃ b s', q s = .ok (b, s') ∧ s'.Beside c ∧ R b

theorem Reader.Beside.fresh {c d : Cursor} (h : c.Alike d) : Reader.Beside ⟨d, none⟩ c :=
  ⟨Reader.coherent_fresh d, h⟩

theorem Reader.Beside.alike {s : Reader} {c d : Cursor} (h : s.Beside d) (hcd : c.Alike d) :
    s.Beside c :=
  ⟨h.coherent, hcd.trans h.cursor⟩

/-- Beside a place the reader meets the token that stands there. -/
theorem Reader.Beside.meets {s : Reader} {c c' : Cursor} {t : Token} (h : s.Beside c)
    (ht : c.Starts t c') : ∃ span d, s.Meets { t with span } d ∧ c'.Alike d := by
  obtain ⟨span, d, hu, hd⟩ := h.cursor.starts ht
  exact ⟨span, d, ⟨h.coherent, hu⟩, hd⟩

namespace Parse.Answers

variable {α β : Type} {q : Parse α} {k : α → Parse β} {b : α} {s s' : Reader} {c c' d : Cursor}
  {R : α → Prop} {S : β → Prop}

theorem pure (hs : s.Beside c) (h : R b) : (Pure.pure b : Parse α).Answers s c R :=
  ⟨b, s, rfl, hs, h⟩

theorem bind (h : q.Answers s c R) (hk : ∀ b s', s'.Beside c → R b → (k b).Answers s' d S) :
    (q >>= k).Answers s d S := by
  obtain ⟨b, s₁, hq, hs₁, hb⟩ := h
  obtain ⟨x, s₂, hkb, hs₂, hx⟩ := hk b s₁ hs₁ hb
  exact ⟨x, s₂, (bind_ok hq).trans hkb, hs₂, hx⟩

/-- A reader that is known to give a value. -/
theorem step (h : q s = .ok (b, s')) (hk : (k b).Answers s' c S) : (q >>= k).Answers s c S := by
  obtain ⟨x, s₂, hkb, hs₂, hx⟩ := hk
  exact ⟨x, s₂, (bind_ok h).trans hkb, hs₂, hx⟩

/-- A reader that goes on like another one from elsewhere. -/
theorem of_eq {p : Parse α} (h : p s = q s') (hq : q.Answers s' c R) : p.Answers s c R := by
  obtain ⟨b, s₁, hq, hs₁, hb⟩ := hq
  exact ⟨b, s₁, h.trans hq, hs₁, hb⟩

theorem mono {R' : α → Prop} (h : q.Answers s c R) (himp : ∀ b, R b → R' b) :
    q.Answers s c R' := by
  obtain ⟨b, s', hq, hs', hb⟩ := h
  exact ⟨b, s', hq, hs', himp b hb⟩

/-! ## By the next token -/

section

variable {t : Token} {p : Punctuator} {yes no : Parse β} (hs : s.Beside c) (ht : c.Starts t c')

include hs ht

theorem bind_peek {k : Token → Parse β}
    (hk : ∀ span s', s'.Beside c → (k { t with span }).Answers s' d S) :
    (peek >>= k).Answers s d S := by
  obtain ⟨span, d, hmeets, hd⟩ := hs.meets ht
  exact step (peekIn_ok hmeets _) (hk span _ ⟨(hmeets.again _).coherent, hs.cursor⟩)

theorem bind_takeIf {accepts : Kind → Bool} {k : Option Token → Parse β} (haccepts : accepts t.kind)
    (hk : ∀ span d', c'.Alike d' → (k (some { t with span })).Answers ⟨d', none⟩ d S) :
    (takeIf accepts >>= k).Answers s d S := by
  obtain ⟨span, d', hmeets, hd⟩ := hs.meets ht
  exact step (takeIf_some hmeets accepts haccepts) (hk span d' hd)

theorem bind_takeIf_none {accepts : Kind → Bool} {k : Option Token → Parse β}
    (haccepts : accepts t.kind = false) (hk : ∀ s', s'.Beside c → (k none).Answers s' d S) :
    (takeIf accepts >>= k).Answers s d S := by
  obtain ⟨span, d', hmeets, hd⟩ := hs.meets ht
  exact step (takeIf_none hmeets accepts haccepts) (hk _ ⟨(hmeets.again _).coherent, hs.cursor⟩)

theorem took {k : Bool → Parse β} (hp : t.kind = .punctuator p)
    (hk : ∀ d', c'.Alike d' → (k true).Answers ⟨d', none⟩ d S) :
    (tookPunctuator p >>= k).Answers s d S := by
  obtain ⟨span, d', hmeets, hd⟩ := hs.meets ht
  exact step (took_true hmeets hp) (hk d' hd)

theorem notTook {k : Bool → Parse β} (hp : t.kind ≠ .punctuator p)
    (hk : ∀ s', s'.Beside c → (k false).Answers s' d S) :
    (tookPunctuator p >>= k).Answers s d S := by
  obtain ⟨span, d', hmeets, hd⟩ := hs.meets ht
  exact step (took_false hmeets hp) (hk _ ⟨(hmeets.again _).coherent, hs.cursor⟩)

theorem bind_expectIn {accepts : Kind → Bool} {k : Token → Parse β} (haccepts : accepts t.kind)
    (hk : ∀ span d', c'.Alike d' → (k { t with span }).Answers ⟨d', none⟩ d S) :
    (expectIn accepts >>= k).Answers s d S := by
  obtain ⟨span, d', hmeets, hd⟩ := hs.meets ht
  exact step (expectIn_ok hmeets accepts haccepts) (hk span d' hd)

theorem bind_expectPunctuator {k : Token → Parse β} (hp : t.kind = .punctuator p)
    (hk : ∀ span d', c'.Alike d' → (k { t with span }).Answers ⟨d', none⟩ d S) :
    (expectPunctuator p >>= k).Answers s d S := by
  obtain ⟨span, d', hmeets, hd⟩ := hs.meets ht
  exact step (expect_ok hmeets hp) (hk span d' hd)

theorem if_at (hp : t.kind = .punctuator p) (hk : ∀ s', s'.Beside c → yes.Answers s' d S) :
    (atPunctuator p >>= fun b => if b then yes else no).Answers s d S := by
  obtain ⟨span, d', hmeets, hd⟩ := hs.meets ht
  refine step (atPunctuator_ok hmeets p) ?_
  simp only [beq_iff_eq.2 hp, if_true]
  exact hk _ ⟨(hmeets.again _).coherent, hs.cursor⟩

theorem if_notAt (hp : t.kind ≠ .punctuator p) (hk : ∀ s', s'.Beside c → no.Answers s' d S) :
    (atPunctuator p >>= fun b => if b then yes else no).Answers s d S := by
  obtain ⟨span, d', hmeets, hd⟩ := hs.meets ht
  refine step (atPunctuator_ok hmeets p) ?_
  simp only [beq_eq_false_iff_ne.2 hp]
  exact hk _ ⟨(hmeets.again _).coherent, hs.cursor⟩

end

end Parse.Answers

end Grammar

end ScriptMin
