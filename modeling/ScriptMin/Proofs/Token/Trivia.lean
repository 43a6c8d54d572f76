import Mathlib.Data.List.Infix
import ScriptMin.Token.Lexer

/-!
# What is skipped between tokens

`IsTrivia gap after` is a grammar of the text between two tokens: space and complete comments, where
`after` is what stands behind the gap. A line comment has to reach the end of its line, so it can be
the last of a gap only if the line, or the source, ends there. At the start of a source a `#!` line
may stand first (`IsLeadingTrivia`).

`skipTrivia` can stop inside a comment of its own making, so what it skips is described for each of
its states (`Resumes`), and one induction over the characters carries all three.
-/

namespace ScriptMin.Lexer

open Source

/-! ## The text between tokens -/

/-- A line ends at the start of the text, or the text is at its end. -/
def EndsLine (text : List Char) : Prop :=
  ∀ c ∈ text.head?, isLineTerminator c

/-- Space and complete comments before `after`. -/
inductive IsTrivia (after : List Char) : List Char → Prop where
  | nil : IsTrivia after []
  | space {c : Char} {gap : List Char} (hc : isSpace c) (h : IsTrivia after gap) :
      IsTrivia after (c :: gap)
  | blockComment {body gap : List Char} (hbody : ¬ ['*', '/'] <:+: body)
      (h : IsTrivia after gap) : IsTrivia after ('/' :: '*' :: body ++ '*' :: '/' :: gap)
  | lineComment {body gap : List Char} (hbody : ∀ c ∈ body, isLineTerminator c = false)
      (hend : EndsLine (gap ++ after)) (h : IsTrivia after gap) :
      IsTrivia after ('/' :: '/' :: body ++ gap)

/-- The trivia at the start of a source: a line that begins with `#!` may come first. -/
inductive IsLeadingTrivia (after : List Char) : List Char → Prop where
  | plain {gap : List Char} (h : IsTrivia after gap) : IsLeadingTrivia after gap
  | hashBang {body gap : List Char} (hbody : ∀ c ∈ body, isLineTerminator c = false)
      (hend : EndsLine (gap ++ after)) (h : IsTrivia after gap) :
      IsLeadingTrivia after ('#' :: '!' :: body ++ gap)

/-- More trivia could be read from the text. -/
def startsTrivia : List Char → Bool
  | '/' :: '*' :: _ => true
  | '/' :: '/' :: _ => true
  | c :: _ => isSpace c
  | [] => false

theorem startsTrivia_of_isSpace {c : Char} {text : List Char} (h : isSpace c) :
    startsTrivia (c :: text) := by
  unfold startsTrivia
  split
  · rfl
  · rfl
  · cases ‹_›; exact h
  · cases ‹_›

theorem startsTrivia_append {text after : List Char} (h : startsTrivia text) :
    startsTrivia (text ++ after) := by
  unfold startsTrivia at h
  split at h
  · rfl
  · rfl
  · exact startsTrivia_of_isSpace h
  · cases h

/-! ## What each state skips -/

/-- What is skipped from a state on: trivia, after the rest of the comment that the state is in. -/
def Resumes (after : List Char) : TriviaState → List Char → Prop
  | .between, gap => IsTrivia after gap
  | .lineComment, text =>
    ∃ body gap, text = body ++ gap ∧ (∀ c ∈ body, isLineTerminator c = false) ∧
      EndsLine (gap ++ after) ∧ IsTrivia after gap
  | .blockComment _, text =>
    ∃ body gap, text = body ++ '*' :: '/' :: gap ∧ ¬ ['*', '/'] <:+: body ∧ IsTrivia after gap

/-- `skipped` stands before what is left of a text, and `t` tells its length and its lines. -/
structure Skips (offset : Nat) (newline : Bool) (text skipped : List Char) (t : Trivia) :
    Prop where
  text : text = skipped ++ t.rest
  offset : t.offset = offset + byteLength skipped
  newline : t.newline = (newline || skipped.any isLineTerminator)

namespace Skips

variable {offset : Nat} {newline : Bool} {text skipped : List Char} {t : Trivia}

theorem nothing : Skips offset newline text [] ⟨text, offset, newline⟩ where
  text := rfl
  offset := rfl
  newline := by simp

/-- One more character in front. -/
theorem cons {c : Char}
    (h : Skips (offset + c.utf8Size) (newline || isLineTerminator c) text skipped t) :
    Skips offset newline (c :: text) (c :: skipped) t where
  text := by rw [h.text, List.cons_append]
  offset := by rw [h.offset, byteLength, Nat.add_assoc]
  newline := by rw [h.newline, List.any_cons, Bool.or_assoc]

/-- The two characters that open or close a comment in front. -/
theorem mark {c d : Char} (hc : c.utf8Size = 1 ∧ isLineTerminator c = false)
    (hd : d.utf8Size = 1 ∧ isLineTerminator d = false)
    (h : Skips (offset + 2) newline text skipped t) :
    Skips offset newline (c :: d :: text) (c :: d :: skipped) t := by
  refine cons (cons ?_)
  rw [hc.1, hc.2, hd.1, hd.2, Bool.or_false, Bool.or_false]
  exact h

end Skips

theorem slash_mark : ('/').utf8Size = 1 ∧ isLineTerminator '/' = false := by decide

theorem asterisk_mark : ('*').utf8Size = 1 ∧ isLineTerminator '*' = false := by decide

theorem isSpace_of_isLineTerminator {c : Char} (h : isLineTerminator c) : isSpace c := by
  simp [isSpace, h]

/-- A character of a block comment that does not end it, in front of what the comment goes on
with. -/
theorem resumes_blockComment_cons {after skipped rest : List Char} {c d : Char} {start : Nat}
    (hmark : ¬ (c = '*' ∧ d = '/')) (htext : d :: rest = skipped ++ after)
    (h : Resumes after (.blockComment start) skipped) :
    Resumes after (.blockComment start) (c :: skipped) := by
  obtain ⟨body, gap, rfl, hbody, hgap⟩ := h
  refine ⟨c :: body, gap, rfl, fun hinfix => ?_, hgap⟩
  rcases List.infix_cons_iff.1 hinfix with hstarts | hlater
  · cases body with
    | nil => simp at hstarts
    | cons b body =>
      -- the mark would be `c` and the character after it, which is `d`
      have hd : d = b := by
        simp only [List.cons_append, List.cons.injEq] at htext
        exact htext.1
      simp only [List.cons_prefix_cons] at hstarts
      exact hmark ⟨hstarts.1.symm, hd.trans hstarts.2.1.symm⟩
  · exact hbody hlater

/-- A character of a line comment, or the end of its line, in front of what comes next. -/
theorem resumes_lineComment_cons {after skipped : List Char} {c : Char}
    (h : Resumes after (if isLineTerminator c then .between else .lineComment) skipped) :
    Resumes after .lineComment (c :: skipped) := by
  by_cases hc : isLineTerminator c
  · rw [if_pos hc] at h
    refine ⟨[], c :: skipped, rfl, nofun, ?_, .space (isSpace_of_isLineTerminator hc) h⟩
    intro c' hc'
    cases hc'
    exact hc
  · rw [if_neg hc] at h
    obtain ⟨body, gap, rfl, hbody, hend, hgap⟩ := h
    refine ⟨c :: body, gap, rfl, ?_, hend, hgap⟩
    exact List.forall_mem_cons.2 ⟨by simpa using hc, hbody⟩

theorem startsTrivia_cons_cons {c d : Char} {rest : List Char} (hspace : ¬ isSpace c)
    (hblock : ¬ (c = '/' ∧ d = '*')) (hline : ¬ (c = '/' ∧ d = '/')) :
    startsTrivia (c :: d :: rest) = false := by
  unfold startsTrivia
  split
  case h_1 heq => cases heq; exact absurd ⟨rfl, rfl⟩ hblock
  case h_2 heq => cases heq; exact absurd ⟨rfl, rfl⟩ hline
  case h_3 heq => cases heq; simpa using hspace
  case h_4 heq => cases heq

/-- `skipTrivia` stops behind trivia, and no more of it could be skipped. -/
theorem skipTrivia_ok (text : List Char) {state : TriviaState} {offset : Nat} {newline : Bool}
    {t : Trivia} (h : skipTrivia state offset newline text = .ok t) :
    ∃ skipped, Skips offset newline text skipped t ∧ Resumes t.rest state skipped ∧
      startsTrivia t.rest = false := by
  fun_induction skipTrivia state offset newline text with
  | case1 => cases h
  | case2 state offset newline hstate =>
    cases h
    refine ⟨[], .nothing, ?_, rfl⟩
    -- only the end of the source is left, and no block comment is open
    cases state with
    | between => exact .nil
    | lineComment => exact ⟨[], [], rfl, nofun, nofun, .nil⟩
    | blockComment start => exact (hstate start rfl).elim
  | case3 => cases h
  | case4 offset newline c =>
    cases h
    refine ⟨[c], .cons .nothing, resumes_lineComment_cons ?_, rfl⟩
    split
    · exact .nil
    · exact ⟨[], [], rfl, nofun, nofun, .nil⟩
  | case5 offset newline c hspace =>
    cases h
    exact ⟨[c], .cons .nothing, .space hspace .nil, rfl⟩
  | case6 offset newline c hspace =>
    cases h
    exact ⟨[], .nothing, .nil, by simpa [startsTrivia] using hspace⟩
  | case7 offset newline c d rest start hmark ih =>
    obtain ⟨rfl, rfl⟩ : c = '*' ∧ d = '/' := by simpa using hmark
    obtain ⟨skipped, hskips, hgap, hstop⟩ := ih h
    exact ⟨'*' :: '/' :: skipped, hskips.mark asterisk_mark slash_mark,
      ⟨[], skipped, rfl, by simp, hgap⟩, hstop⟩
  | case8 offset newline c d rest start hmark ih =>
    obtain ⟨skipped, hskips, hresumes, hstop⟩ := ih h
    exact ⟨c :: skipped, hskips.cons,
      resumes_blockComment_cons (by simpa using hmark) hskips.text hresumes, hstop⟩
  | case9 offset newline c d rest ih =>
    obtain ⟨skipped, hskips, hresumes, hstop⟩ := ih h
    exact ⟨c :: skipped, hskips.cons, resumes_lineComment_cons hresumes, hstop⟩
  | case10 offset newline c d rest hspace ih =>
    obtain ⟨skipped, hskips, hgap, hstop⟩ := ih h
    exact ⟨c :: skipped, hskips.cons, .space hspace hgap, hstop⟩
  | case11 offset newline c d rest hspace hmark ih =>
    obtain ⟨rfl, rfl⟩ : c = '/' ∧ d = '*' := by simpa using hmark
    obtain ⟨skipped, hskips, ⟨body, gap, rfl, hbody, hgap⟩, hstop⟩ := ih h
    exact ⟨_, hskips.mark slash_mark asterisk_mark, .blockComment hbody hgap, hstop⟩
  | case12 offset newline c d rest hspace hblock hmark ih =>
    obtain ⟨rfl, rfl⟩ : c = '/' ∧ d = '/' := by simpa using hmark
    obtain ⟨skipped, hskips, ⟨body, gap, rfl, hbody, hend, hgap⟩, hstop⟩ := ih h
    exact ⟨_, hskips.mark slash_mark slash_mark, .lineComment hbody hend hgap, hstop⟩
  | case13 offset newline c d rest hspace hblock hline =>
    cases h
    exact ⟨[], .nothing, .nil,
      startsTrivia_cons_cons hspace (by simpa using hblock) (by simpa using hline)⟩

/-- What `triviaAt` skips at a position: after the start of the source, plain trivia. -/
theorem triviaAt_ok {position : Nat} {text : List Char} {t : Trivia}
    (h : triviaAt position text = .ok t) :
    ∃ skipped, Skips 0 false text skipped t ∧
      (IsTrivia t.rest skipped ∨ position = 0 ∧ IsLeadingTrivia t.rest skipped) ∧
      startsTrivia t.rest = false := by
  unfold triviaAt at h
  split at h
  case h_1 rest =>
    obtain ⟨skipped, hskips, ⟨body, gap, rfl, hbody, hend, hgap⟩, hstop⟩ := skipTrivia_ok rest h
    exact ⟨_, hskips.mark (by decide) (by decide), .inr ⟨rfl, .hashBang hbody hend hgap⟩, hstop⟩
  case h_2 =>
    obtain ⟨skipped, hskips, hgap, hstop⟩ := skipTrivia_ok text h
    exact ⟨skipped, hskips, .inl hgap, hstop⟩

/-! ## Where nothing is skipped -/

theorem skipTrivia_between {text : List Char} (h : startsTrivia text = false) (offset : Nat)
    (newline : Bool) : skipTrivia .between offset newline text = .ok ⟨text, offset, newline⟩ := by
  match text, h with
  | [], _ => rfl
  | [c], h =>
    have hspace : isSpace c = false := by simpa [startsTrivia] using h
    simp [skipTrivia, hspace]
  | c :: d :: rest, h =>
    have hspace : isSpace c = false := by
      by_contra hc
      have hstarts : startsTrivia (c :: d :: rest) := startsTrivia_of_isSpace (by simpa using hc)
      rw [h] at hstarts
      cases hstarts
    have hblock : ¬ (c = '/' ∧ d = '*') := by rintro ⟨rfl, rfl⟩; cases h
    have hline : ¬ (c = '/' ∧ d = '/') := by rintro ⟨rfl, rfl⟩; cases h
    simp only [skipTrivia, hspace, Bool.false_eq_true, if_false, Bool.and_eq_true, beq_iff_eq,
      hblock, hline]

/-- Nothing is skipped at a character that starts no trivia and no `#!` line. -/
theorem triviaAt_of_startsTrivia {text : List Char} (h : startsTrivia text = false)
    (hhash : text.head? ≠ some '#') (position : Nat) :
    triviaAt position text = .ok ⟨text, 0, false⟩ := by
  unfold triviaAt
  split
  · exact absurd rfl hhash
  · exact skipTrivia_between h 0 false

end ScriptMin.Lexer

namespace ScriptMin

open Source Lexer

/-- What a token is made of. -/
theorem Cursor.next_eq_ok {mode : SlashMode} {c c' : Cursor} {t : Token} :
    c.next mode = .ok (t, c') ↔
      ∃ trivia kind lexeme, triviaAt c.position c.rest = .ok trivia ∧
        token mode trivia.rest = .ok (kind, lexeme) ∧
        t = ⟨kind, String.ofList lexeme.text, ⟨c.position + trivia.offset,
          c.position + trivia.offset + byteLength lexeme.text⟩, trivia.newline⟩ ∧
        c' = ⟨lexeme.rest, c.position + trivia.offset + byteLength lexeme.text⟩ := by
  unfold next
  constructor
  · intro h
    split at h
    case h_1 => cases h
    case h_2 trivia htrivia =>
      simp only at h
      split at h
      case h_1 => cases h
      case h_2 kind lexeme htoken =>
        cases h
        exact ⟨trivia, kind, lexeme, htrivia, htoken, rfl, rfl⟩
  · rintro ⟨trivia, kind, lexeme, htrivia, htoken, rfl, rfl⟩
    simp only [htrivia, htoken]

/-- The token at a place where nothing is skipped. -/
theorem Cursor.next_of_token {mode : SlashMode} {text : List Char} {kind : Kind} {l : Lexeme}
    (htrivia : startsTrivia text = false) (hhash : text.head? ≠ some '#')
    (htoken : token mode text = .ok (kind, l)) (position : Nat) :
    Cursor.next mode ⟨text, position⟩ =
      .ok (⟨kind, String.ofList l.text, ⟨position, position + byteLength l.text⟩, false⟩,
        ⟨l.rest, position + byteLength l.text⟩) := by
  simp only [next, triviaAt_of_startsTrivia htrivia hhash, htoken, Nat.add_zero]

end ScriptMin
