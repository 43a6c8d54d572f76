import Mathlib.Data.List.Forall2
import ScriptMin.Grammar.Reader

/-!
# The same text elsewhere

Two readers are alike if the same text is ahead of them, wherever that text stands in its source.
`p.Agrees q R` says that from alike readers `p` and `q` either are both refused, for the same cause,
or both give a value, leave off at alike readers, and their values are related by `R`. Only a bound
on the work may keep one of them from ending, so two levels of nesting can be compared as well. As
for `Ensures`, there is one rule for each way of making a reader; a token comes with the span that
it has in the other source.
-/

namespace ScriptMin

/-! ## Places and tokens -/

/-- The same text is ahead. The start of a source is told apart, since `#!` is read only there. -/
structure Cursor.Alike (c d : Cursor) : Prop where
  rest : c.rest = d.rest
  start : c.position = 0 ↔ d.position = 0

theorem Cursor.Alike.trans {c d e : Cursor} (h : c.Alike d) (h' : d.Alike e) : c.Alike e :=
  ⟨h.rest.trans h'.rest, h.start.trans h'.start⟩

/-- Behind the start of a source the place does not matter. -/
theorem Cursor.Alike.behind (text : List Char) {n m : Nat} (hn : 0 < n) (hm : 0 < m) :
    Cursor.Alike ⟨text, n⟩ ⟨text, m⟩ :=
  ⟨rfl, iff_of_false (Nat.ne_of_gt hn) (Nat.ne_of_gt hm)⟩

/-- The same token, at another place. -/
inductive Token.Alike (t : Token) : Token → Prop
  | at (s : Source.Span) : Token.Alike t { t with span := s }

/-- Two checks that come out alike: values that are related, or errors of one cause. -/
inductive ResultsAlike {α β : Type} (R : α → β → Prop) :
    Except SyntaxError α → Except SyntaxError β → Prop
  | ok {a : α} {b : β} (h : R a b) : ResultsAlike R (.ok a) (.ok b)
  | error {e e' : SyntaxError} (h : e.cause = e'.cause) : ResultsAlike R (.error e) (.error e')

namespace ResultsAlike

variable {α β α' β' : Type} {R : α → β → Prop} {S : α' → β' → Prop} {x x' : Except SyntaxError α}
  {y y' : Except SyntaxError β}

theorem bind {k : α → Except SyntaxError α'} {l : β → Except SyntaxError β'}
    (h : ResultsAlike R x y) (hk : ∀ a b, R a b → ResultsAlike S (k a) (l b)) :
    ResultsAlike S (x >>= k) (y >>= l) := by
  cases h with
  | ok hab => exact hk _ _ hab
  | error he => exact .error he

theorem ite {c : Prop} [Decidable c] (hx : c → ResultsAlike R x y)
    (hx' : ¬c → ResultsAlike R x' y') :
    ResultsAlike R (if c then x else x') (if c then y else y') := by
  split
  · exact hx ‹_›
  · exact hx' ‹_›

/-- Checks that come out like a third one come out alike. -/
theorem through {γ : Type} {T : α → γ → Prop} {T' : β → γ → Prop} {z : Except SyntaxError γ}
    (hx : ResultsAlike T x z) (hy : ResultsAlike T' y z) (h : ∀ a b c, T a c → T' b c → R a b) :
    ResultsAlike R x y := by
  cases hx with
  | ok hac => cases hy with
    | ok hbc => exact .ok (h _ _ _ hac hbc)
  | error he => cases hy with
    | error he' => exact .error (he.trans he'.symm)

end ResultsAlike

theorem Cursor.Alike.advance {c d : Cursor} (h : c.Alike d) (rest : List Char) (n : Nat) :
    Cursor.Alike ⟨rest, c.position + n⟩ ⟨rest, d.position + n⟩ where
  rest := rfl
  start := by
    have hstart := h.start
    show c.position + n = 0 ↔ d.position + n = 0
    omega

theorem Cursor.Alike.triviaAt {c d : Cursor} (h : c.Alike d) :
    Lexer.triviaAt c.position c.rest = Lexer.triviaAt d.position d.rest := by
  rw [h.rest]
  have hstart := h.start
  cases hc : c.position <;> cases hd : d.position
  case zero.zero => rfl
  case succ.succ => rfl
  all_goals simp [hc, hd] at hstart

/-- Forming a token does not depend on where its text stands. -/
theorem Cursor.Alike.next {c d : Cursor} (h : c.Alike d) (mode : SlashMode) :
    ResultsAlike (fun a b => a.1.Alike b.1 ∧ a.2.Alike b.2) (c.next mode) (d.next mode) := by
  unfold Cursor.next
  rw [h.triviaAt]
  cases Lexer.triviaAt d.position d.rest with
  | error r => exact .error rfl
  | ok trivia =>
    simp only
    cases Lexer.token mode trivia.rest with
    | error r => exact .error rfl
    | ok read =>
      obtain ⟨kind, lexeme⟩ := read
      simp only [Nat.add_assoc]
      exact .ok ⟨.at _, h.advance _ _⟩

theorem Cursor.Alike.templateTail {c d : Cursor} (h : c.Alike d) :
    ResultsAlike (fun a b => a.1.Alike b.1 ∧ a.2.Alike b.2) c.templateTail d.templateTail := by
  unfold Cursor.templateTail
  rw [h.rest]
  cases Lexer.templateBody d.rest with
  | error r => exact .error rfl
  | ok read =>
    obtain ⟨isLast, lexeme⟩ := read
    exact .ok ⟨.at _, h.advance _ _⟩

theorem Token.Alike.unexpected {t u : Token} (h : t.Alike u) :
    t.unexpected.cause = u.unexpected.cause := by
  obtain ⟨s⟩ := h
  simp only [Token.unexpected, Token.shown]
  split <;> rfl

namespace Grammar

structure Lookahead.Alike (a b : Lookahead) : Prop where
  token : a.token.Alike b.token
  mode : a.mode = b.mode
  after : a.after.Alike b.after

/-- The same text is ahead, and as much of it was read ahead. -/
structure Reader.Alike (r s : Reader) : Prop where
  cursor : r.cursor.Alike s.cursor
  ahead : Option.Rel Lookahead.Alike r.ahead s.ahead

theorem Reader.Alike.of_cursor {c d : Cursor} (h : c.Alike d) : Reader.Alike ⟨c, none⟩ ⟨d, none⟩ :=
  ⟨h, .none⟩

namespace Parse

/-! ## Readers -/

/-- Two runs that come out alike. Nothing is said where a bound on the work was reached. -/
inductive RunsAlike {α β : Type} (R : α → β → Prop) :
    Except Failure (α × Reader) → Except Failure (β × Reader) → Prop
  | ok {a : α} {b : β} {r s : Reader} (h : R a b) (hr : r.Alike s) :
    RunsAlike R (.ok (a, r)) (.ok (b, s))
  | refused {e e' : SyntaxError} (h : e.cause = e'.cause) :
    RunsAlike R (.error (.refused e)) (.error (.refused e'))
  | left {y : Except Failure (β × Reader)} : RunsAlike R (.error .exhausted) y
  | right {x : Except Failure (α × Reader)} : RunsAlike R x (.error .exhausted)

/-- From alike readers the two come out alike. -/
def Agrees {α β : Type} (p : Parse α) (q : Parse β) (R : α → β → Prop) : Prop :=
  ∀ r s, r.Alike s → RunsAlike R (p r) (q s)

/-- What rounds come to that are alike. -/
inductive Round.Alike {σ σ' ρ ρ' : Type} (I : σ → σ' → Prop) (R : ρ → ρ' → Prop) :
    Round σ ρ → Round σ' ρ' → Prop
  | again {x : σ} {y : σ'} (h : I x y) : Round.Alike I R (.again x) (.again y)
  | done {x : ρ} {y : ρ'} (h : R x y) : Round.Alike I R (.done x) (.done y)

namespace Agrees

variable {α β α' β' σ σ' ρ ρ' : Type} {p : Parse α} {q : Parse β} {k : α → Parse α'}
  {l : β → Parse β'} {R : α → β → Prop} {S : α' → β' → Prop}

theorem bind (h : p.Agrees q R) (hk : ∀ a b, R a b → (k a).Agrees (l b) S) :
    (p >>= k).Agrees (q >>= l) S := by
  intro r s hrs
  have hxy := h r s hrs
  simp only [Bind.bind, StateT.bind, Except.bind]
  generalize p r = x at hxy ⊢
  generalize q s = y at hxy ⊢
  cases hxy with
  | ok hab hr => exact hk _ _ hab _ _ hr
  | refused he => exact .refused he
  | left => exact .left
  | right => exact .right

/-- A reader after one whose values do not matter. -/
theorem bind_any (h : p.Agrees q R) (hk : ∀ a b, (k a).Agrees (l b) S) :
    (p >>= k).Agrees (q >>= l) S :=
  h.bind fun a b _ => hk a b

/-- A reader after one whose values are the same. -/
theorem bind_eq {q : Parse α} {l : α → Parse β'} (h : p.Agrees q Eq)
    (hk : ∀ a, (k a).Agrees (l a) S) : (p >>= k).Agrees (q >>= l) S := by
  refine h.bind ?_
  rintro a _ rfl
  exact hk a

/-- A reader after one token. -/
theorem bind_token {p q : Parse Token} {k : Token → Parse α'} {l : Token → Parse β'}
    (h : p.Agrees q Token.Alike) (hk : ∀ t s, (k t).Agrees (l { t with span := s }) S) :
    (p >>= k).Agrees (q >>= l) S := by
  refine h.bind ?_
  rintro t _ ⟨s⟩
  exact hk t s

theorem pure {a : α} {b : β} (h : R a b) : (Pure.pure a : Parse α).Agrees (Pure.pure b) R :=
  fun _ _ hrs => .ok h hrs

/-- A value between two readers. -/
theorem bind_pure {a : α} {b : β} (h : (k a).Agrees (l b) S) :
    (Pure.pure a >>= k).Agrees (Pure.pure b >>= l) S := h

theorem ite {c : Prop} [Decidable c] {p' : Parse α} {q' : Parse β} (hp : c → p.Agrees q R)
    (hq : ¬c → p'.Agrees q' R) : (if c then p else p').Agrees (if c then q else q') R := by
  split
  · exact hp ‹_›
  · exact hq ‹_›

/-! ## Refusals and checks -/

theorem refuse {e e' : SyntaxError} (h : e.cause = e'.cause) :
    (Parse.refuse e : Parse α).Agrees (Parse.refuse e' : Parse β) R :=
  fun _ _ _ => .refused h

theorem unexpected {t u : Token} (h : t.Alike u) :
    (Parse.unexpected t : Parse α).Agrees (Parse.unexpected u : Parse β) R :=
  refuse h.unexpected

/-- What stands after a reader that is refused is not reached. -/
theorem bind_refuse {e e' : SyntaxError} (h : e.cause = e'.cause) :
    (Parse.refuse e >>= k).Agrees (Parse.refuse e' >>= l) S :=
  (refuse h).bind fun _ _ (hab : False) => hab.elim

theorem bind_unexpected {t u : Token} (h : t.Alike u) :
    (Parse.unexpected t >>= k).Agrees (Parse.unexpected u >>= l) S :=
  bind_refuse h.unexpected

theorem exhausted_left : (Parse.exhausted : Parse α).Agrees q R := fun _ _ _ => .left

theorem exhausted_right : p.Agrees (Parse.exhausted : Parse β) R := fun _ _ _ => .right

theorem check {x : Except SyntaxError α} {y : Except SyntaxError β} (h : ResultsAlike R x y) :
    (Parse.check x).Agrees (Parse.check y) R := by
  cases h with
  | ok hab => exact pure hab
  | error he => exact refuse he

theorem require {t u : Token} (cause : Cause) (value : Option α) :
    (Parse.require cause t value).Agrees (Parse.require cause u value) Eq := by
  cases value with
  | some a => exact pure rfl
  | none => exact refuse rfl

/-! ## Places -/

/-- The places of the next tokens are alike. -/
theorem mark : Parse.mark.Agrees Parse.mark Cursor.Alike :=
  fun _ _ hrs => .ok hrs.cursor hrs

theorem rewind {c d : Cursor} (h : c.Alike d) :
    (Parse.rewind c).Agrees (Parse.rewind d) fun _ _ => True :=
  fun _ _ _ => .ok trivial (.of_cursor h)

theorem spanFrom (c d : Cursor) : (Parse.spanFrom c).Agrees (Parse.spanFrom d) fun _ _ => True :=
  fun _ _ hrs => .ok trivial hrs

/-! ## Tokens -/

theorem lex (mode : SlashMode) :
    (Parse.lex mode).Agrees (Parse.lex mode) fun a b => a.1.Alike b.1 ∧ a.2.Alike b.2 := by
  intro r s hrs
  exact check (hrs.cursor.next mode) r s hrs

theorem forward (mode : SlashMode) {takes takes' : Token → Bool}
    (h : ∀ t u, t.Alike u → takes t = takes' u) :
    (Parse.forward mode takes).Agrees (Parse.forward mode takes') Token.Alike := by
  intro r s hrs
  have hrest : ∀ x y : Token × Cursor, x.1.Alike y.1 ∧ x.2.Alike y.2 →
      (set (if takes x.1 then (⟨x.2, none⟩ : Reader)
        else ⟨r.cursor, some ⟨x.1, mode, x.2⟩⟩) >>= fun _ => Pure.pure x.1 : Parse Token).Agrees
      (set (if takes' y.1 then (⟨y.2, none⟩ : Reader)
        else ⟨s.cursor, some ⟨y.1, mode, y.2⟩⟩) >>= fun _ => Pure.pure y.1) Token.Alike := by
    rintro ⟨t, c⟩ ⟨u, d⟩ ⟨htu, hcd⟩ _ _ _
    refine .ok htu ?_
    rw [h t u htu]
    cases takes' u
    · exact ⟨hrs.cursor, .some ⟨htu, rfl, hcd⟩⟩
    · exact .of_cursor hcd
  obtain ⟨c, ahead⟩ := r
  obtain ⟨d, ahead'⟩ := s
  cases hrs.ahead with
  | none => exact (lex mode).bind hrest _ _ hrs
  | @some a b ha =>
    obtain ⟨t, m, after⟩ := a
    obtain ⟨u, m', after'⟩ := b
    obtain ⟨htu, rfl, hafter⟩ := ha
    exact (ite (c := m = mode) (fun _ => hrest (t, after) (u, after') ⟨htu, hafter⟩)
      fun _ => (lex mode).bind hrest) _ _ hrs

theorem nextIn (mode : SlashMode) : (Parse.nextIn mode).Agrees (Parse.nextIn mode) Token.Alike :=
  forward mode fun _ _ _ => rfl

theorem next : Parse.next.Agrees Parse.next Token.Alike := nextIn _

theorem peekIn (mode : SlashMode) : (Parse.peekIn mode).Agrees (Parse.peekIn mode) Token.Alike :=
  forward mode fun _ _ _ => rfl

theorem peek : Parse.peek.Agrees Parse.peek Token.Alike := peekIn _

theorem skip : Parse.skip.Agrees Parse.skip fun _ _ => True := by
  intro r s hrs
  refine .ok trivial ?_
  obtain ⟨c, ahead⟩ := r
  obtain ⟨d, ahead'⟩ := s
  cases hrs.ahead with
  | none => exact hrs
  | some ha => exact .of_cursor ha.after

theorem peekSecond : Parse.peekSecond.Agrees Parse.peekSecond Token.Alike :=
  mark.bind fun _ _ hplace => next.bind fun _ _ _ => peek.bind fun _ _ ht =>
    (rewind hplace).bind fun _ _ _ => pure ht

theorem takeIf (accepts : Kind → Bool) :
    (Parse.takeIf accepts).Agrees (Parse.takeIf accepts) (Option.Rel Token.Alike) := by
  refine (forward _ ?_).bind ?_
  · rintro t _ ⟨s⟩
    rfl
  · rintro t _ ⟨s⟩
    simp only
    split
    · exact pure (.some (.at s))
    · exact pure .none

theorem took (kind : Kind) : (Parse.took kind).Agrees (Parse.took kind) Eq := by
  refine (takeIf _).bind fun a b hab => ?_
  cases hab <;> exact pure rfl

theorem expectIn (accepts : Kind → Bool) :
    (Parse.expectIn accepts).Agrees (Parse.expectIn accepts) Token.Alike := by
  refine next.bind ?_
  rintro t _ ⟨s⟩
  exact ite (fun _ => pure (.at s)) fun _ => unexpected (.at s)

theorem expectPunctuator (p : Punctuator) :
    (Parse.expectPunctuator p).Agrees (Parse.expectPunctuator p) Token.Alike :=
  expectIn (· == .punctuator p)

theorem expectWord (w : Word) : (Parse.expectWord w).Agrees (Parse.expectWord w) Token.Alike :=
  expectIn (· == .word w)

theorem tookPunctuator (p : Punctuator) :
    (Parse.tookPunctuator p).Agrees (Parse.tookPunctuator p) Eq := took _

theorem tookWord (w : Word) : (Parse.tookWord w).Agrees (Parse.tookWord w) Eq := took _

theorem atPunctuator (p : Punctuator) :
    (Parse.atPunctuator p).Agrees (Parse.atPunctuator p) Eq := by
  refine peek.bind ?_
  rintro t _ ⟨s⟩
  exact pure rfl

theorem templateTail : Parse.templateTail.Agrees Parse.templateTail Token.Alike := by
  intro r s hrs
  exact (check hrs.cursor.templateTail).bind
    (k := fun x => set (⟨x.2, none⟩ : Reader) >>= fun _ => Pure.pure x.1)
    (l := fun x => set (⟨x.2, none⟩ : Reader) >>= fun _ => Pure.pure x.1)
    (fun _ _ hab _ _ _ => .ok hab.1 (.of_cursor hab.2)) r s hrs

theorem endStatement : Parse.endStatement.Agrees Parse.endStatement fun _ _ => True := by
  refine peek.bind ?_
  rintro t _ ⟨s⟩
  dsimp only
  split
  · exact skip
  · exact pure trivial
  · exact pure trivial
  · exact ite (fun _ => pure trivial) fun _ => unexpected (.at s)

/-! ## Repetition -/

/-- Rounds that agree as long as their states are related. -/
theorem iterate {round : σ → Parse (Round σ ρ)} {round' : σ' → Parse (Round σ' ρ')}
    {I : σ → σ' → Prop} {R : ρ → ρ' → Prop}
    (h : ∀ x y, I x y → (round x).Agrees (round' y) (Round.Alike I R)) (bound bound' : Nat)
    {x : σ} {y : σ'} (hxy : I x y) :
    (Parse.iterate round bound x).Agrees (Parse.iterate round' bound' y) R := by
  induction bound generalizing bound' x y with
  | zero => exact exhausted_left
  | succ bound ih =>
    cases bound' with
    | zero => exact exhausted_right
    | succ bound' =>
      refine (h x y hxy).bind fun _ _ hround => ?_
      cases hround with
      | again hxy => exact ih bound' hxy
      | done hR => exact pure hR

theorem collect {round : Parse (Option α)} {round' : Parse (Option β)}
    (h : round.Agrees round' (Option.Rel R)) (bound bound' : Nat) :
    (Parse.collect bound round).Agrees (Parse.collect bound' round') (List.Forall₂ R) := by
  refine (iterate (I := List.Forall₂ R) (R := List.Forall₂ R) (fun read read' hread => ?_) bound
    bound' .nil).bind fun reversed reversed' hreversed => pure (List.rel_reverse hreversed)
  refine h.bind fun _ _ hab => ?_
  cases hab with
  | none => exact pure (.done hread)
  | some hab => exact pure (.again (.cons hab hread))

/-- A reading that is tried is taken back in both or in neither. -/
theorem attempt (keeps : Cause → Bool) (h : p.Agrees q R) :
    (Parse.attempt keeps p).Agrees (Parse.attempt keeps q) (Option.Rel R) := by
  intro r s hrs
  have hxy := h r s hrs
  unfold Parse.attempt
  generalize p r = x at hxy ⊢
  generalize q s = y at hxy ⊢
  cases hxy with
  | ok hab hr => exact .ok (.some hab) hr
  | refused he =>
    simp only [he]
    split
    · exact .refused he
    · exact .ok .none (.of_cursor hrs.cursor)
  | left => exact .left
  | right =>
    simp only
    exact .right

end Agrees

end Parse

end Grammar

end ScriptMin
